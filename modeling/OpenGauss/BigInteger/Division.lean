import OpenGauss.BigInteger.NumericWeight

namespace OpenGauss.BigInteger

open Lib

/-- The negation of a value that has no negative: undefined by the language, and wrapping as the
build asks for by `-fwrapv`. -/
inductive NegativeOverflow where
  | undefined
  | fwrapv

variable (overflow : NegativeOverflow)

def negate (bits : Nat) (val : Int) : Option Int :=
  match overflow with
  | .undefined => signed bits (-val)
  | .fwrapv => some ((-val).bmod (2 ^ bits))

/-- `(val >= 0) ? val : -val`, passed as the unsigned type of these bits. -/
def absoluteVal (bits : Nat) (val : Int) : Option Nat :=
  if 0 ≤ val then some val.toNat
  else do
    let negative ← negate overflow bits val
    some (negative % 2 ^ bits).toNat

/-- The scale for the weights and the first digits of both operands, one digit more than the result
has: this one is what the result is rounded by. -/
def quotientScale (left right : Int × Nat) (lvalscale rvalscale : Nat) : Int :=
  let qweight := if left.2 ≤ right.2 then left.1 - right.1 - 1 else left.1 - right.1
  let rscale := numericMinSigDigits - qweight * decDigits
  max (max rscale lvalscale) rvalscale + 1

/-- The dividend at the adjusted scale, if the scales are admissible and it is in range. -/
def scaledDividend (leftval rscale adjustScale : Int) : Option Int :=
  if rscale ≤ maxInt128Digit ∧ adjustScale ≤ maxInt128Digit then
    signed 128 (leftval * getScaleMultiplier adjustScale.toNat)
  else none

def roundLastDigit (result : Int) : Option Int :=
  if 0 < result then
    if 5 ≤ result.tmod 10 then signed 128 (result.tdiv 10 + 1) else some (result.tdiv 10)
  else if result < 0 then
    if result.tmod 10 ≤ -5 then signed 128 (result.tdiv 10 - 1) else some (result.tdiv 10)
  else some result

def makeNumeric (result : Int) (rscale : Nat) : Outcome :=
  if rscale ≤ maxInt64Digit ∧ InSigned 64 result then .makeNumeric64 result rscale
  else .makeNumeric128 result rscale

inductive DivOutcome where
  | divisionByZero
  | quotient (outcome : Outcome)
deriving DecidableEq

/-- The quotient with one digit more than the result, and the result rounded by it. -/
def divideAtScale (leftval : Int) (lvalscale : Nat) (rightval : Int) (rvalscale : Nat)
    (rscale : Int) : Option DivOutcome :=
  match scaledDividend leftval rscale (rscale + rvalscale - lvalscale) with
  | none => some (.quotient .numericRoutine)
  | some divnum => do
      let result ← signed 128 (divnum.tdiv rightval)
      let rounded ← roundLastDigit result
      some (.quotient (makeNumeric rounded (rscale - 1).toNat))

/-- The division of both sizes, which differ in the type that the operands are negated in; `none`
where an operation of a type overflows. -/
def biDivide (bits : Nat) (leftval : Int) (lvalscale : Nat)
    (rightval : Int) (rvalscale : Nat) : Option DivOutcome :=
  if rightval = 0 then some .divisionByZero
  else do
    let leftabs ← absoluteVal overflow bits leftval
    let rightabs ← absoluteVal overflow bits rightval
    divideAtScale leftval lvalscale rightval rvalscale
      (quotientScale (getBiWeightDigit leftabs lvalscale) (getBiWeightDigit rightabs rvalscale)
        lvalscale rvalscale)

def bi64div64 (larg rarg : Bi 64 maxInt64Digit) : Option DivOutcome :=
  biDivide overflow 64 larg.value larg.scale rarg.value rarg.scale

def bi128div128 (larg rarg : BiNumeric) : Option DivOutcome :=
  biDivide overflow 128 larg.int128GetVal larg.scale rarg.int128GetVal rarg.scale

def biDiv : BiNumeric → BiNumeric → Option DivOutcome
  | .bi64 larg, .bi64 rarg => bi64div64 overflow larg rarg
  | larg, rarg => bi128div128 overflow larg rarg

section AbsoluteVal

variable {bits : Nat} {val : Int} (inside : InSigned bits val) (sized : 0 < bits)
include inside sized

theorem negative_emod (negative : val < 0) : (-val % 2 ^ bits).toNat = val.natAbs := by
  have double : (2 : Int) ^ bits = 2 * 2 ^ (bits - 1) := by
    rw [← pow_succ', Nat.sub_add_cancel sized]
  have small : -val < 2 ^ bits := by
    have positive : (0 : Int) < 2 ^ (bits - 1) := by positivity
    obtain ⟨low, -⟩ := inside
    omega
  rw [Int.emod_eq_of_lt (by omega) small]
  omega

/-- Wrapping keeps the bits, and these are the ones of the absolute value. -/
theorem absoluteVal_fwrapv : absoluteVal .fwrapv bits val = some val.natAbs := by
  unfold absoluteVal
  by_cases nonneg : 0 ≤ val
  · rw [if_pos nonneg]
    congr 1
    omega
  · have wrapped := negative_emod inside sized (not_le.mp nonneg)
    rw [if_neg nonneg]
    simp only [negate, Option.bind_eq_bind, Option.bind_some]
    rw [← wrapped]
    congr 2
    exact_mod_cast Int.bmod_emod

theorem absoluteVal_undefined :
    absoluteVal .undefined bits val = if val = -2 ^ (bits - 1) then none else some val.natAbs := by
  have positive : (0 : Int) < 2 ^ (bits - 1) := by positivity
  unfold absoluteVal
  by_cases nonneg : 0 ≤ val
  · rw [if_pos nonneg, if_neg (by omega)]
    congr 1
    omega
  · have wrapped := negative_emod inside sized (not_le.mp nonneg)
    obtain ⟨low, high⟩ := inside
    rw [if_neg nonneg, negate]
    by_cases least : val = -2 ^ (bits - 1)
    · have outside : ¬ InSigned bits (-val) := by
        rintro ⟨-, above⟩
        omega
      rw [if_pos least, signed_of_not_in outside]
      rfl
    · have within : InSigned bits (-val) := ⟨by omega, by omega⟩
      rw [if_neg least, signed_of_in within]
      simp only [Option.bind_eq_bind, Option.bind_some, wrapped]

end AbsoluteVal

theorem abs_dropDigit_le (value : Int) : |dropDigit value| ≤ |value| := by
  rw [dropDigit, abs_mul, Nat.abs_cast, Int.abs_eq_natAbs value]
  have tenth : (value.natAbs + 5) / 10 ≤ value.natAbs := by omega
  calc |value.sign| * ((value.natAbs + 5) / 10 : Nat)
      ≤ 1 * ((value.natAbs + 5) / 10 : Nat) := by
        refine mul_le_mul_of_nonneg_right ?_ (Int.natCast_nonneg _)
        rcases lt_trichotomy value 0 with negative | rfl | positive
        · rw [Int.sign_eq_neg_one_of_neg negative, abs_neg, abs_one]
        · decide
        · rw [Int.sign_eq_one_of_pos positive, abs_one]
    _ ≤ value.natAbs := by
        rw [one_mul]
        exact_mod_cast tenth

theorem roundLastDigit_eq {result : Int} (small : |result| < 2 ^ (128 - 1)) :
    roundLastDigit result = some (dropDigit result) := by
  have inside := inSigned_of_abs_lt ((abs_dropDigit_le result).trans_lt small)
  unfold roundLastDigit
  rcases lt_trichotomy result 0 with negative | rfl | positive
  · have rounded : dropDigit result = -((-result + 5) / 10) := by
      rw [← dropDigit_of_nonneg (by omega), dropDigit_neg, neg_neg]
    have digit : result.tmod 10 = -(-result % 10) := by
      rw [← Int.tmod_eq_emod_of_nonneg (by omega), Int.neg_tmod, neg_neg]
    have tens : result.tdiv 10 = -(-result / 10) := by
      rw [← Int.tdiv_eq_ediv_of_nonneg (by omega), Int.neg_tdiv, neg_neg]
    rw [if_neg (by omega), if_pos negative, digit, tens]
    rw [rounded] at inside ⊢
    by_cases half : -(-result % 10) ≤ -5
    · have next : -(-result / 10) - 1 = -((-result + 5) / 10) := by omega
      rw [if_pos half, next, signed_of_in inside]
    · rw [if_neg half]
      congr 1
      omega
  · rfl
  · have rounded := dropDigit_of_nonneg positive.le
    rw [if_pos positive, Int.tmod_eq_emod_of_nonneg positive.le, Int.tdiv_eq_ediv_of_nonneg positive.le]
    rw [rounded] at inside ⊢
    by_cases half : 5 ≤ result % 10
    · have next : result / 10 + 1 = (result + 5) / 10 := by omega
      rw [if_pos half, next, signed_of_in inside]
    · rw [if_neg half]
      congr 1
      omega

/-- A scaled dividend ends in a zero, so that it is not the least value and has a quotient. -/
theorem abs_tdiv_lt {leftval : Int} {scale : Nat} (pos : 0 < scale) (rightval : Int)
    (inside : InSigned 128 (leftval * 10 ^ scale)) :
    |(leftval * 10 ^ scale).tdiv rightval| < 2 ^ (128 - 1) := by
  have tens : (10 : Int) ∣ leftval * 10 ^ scale :=
    (dvd_pow_self 10 pos.ne').mul_left leftval
  have bound : |leftval * 10 ^ scale| < 2 ^ (128 - 1) := by
    refine lt_of_le_of_ne (abs_le_of_inSigned inside) fun reached => ?_
    rw [← dvd_abs, reached] at tens
    exact not_ten_dvd_two_pow _ tens
  refine lt_of_le_of_lt ?_ bound
  rw [Int.abs_eq_natAbs, Int.abs_eq_natAbs, Int.natAbs_tdiv]
  exact_mod_cast Nat.div_le_self _ _

theorem makeNumeric_exact {result : Int} {rscale : Nat} {number : ℚ} (inside : InSigned 128 result)
    (small : rscale ≤ maxInt128Digit) (exact : rational result rscale = number) :
    (makeNumeric result rscale).Exact number rscale := by
  unfold makeNumeric
  split
  · rename_i fits
    exact ⟨fits.2, fits.1, rfl, exact⟩
  · exact ⟨inside, small, rfl, exact⟩

/-- The quotient of two numbers at a scale, rounded half away from zero. -/
def roundedQuotient (left right : ℚ) (scale : Nat) : ℚ :=
  rational (roundHalfAway (left / right * 10 ^ scale)) scale

theorem divideAtScale_exact {leftval rightval : Int} {lvalscale rvalscale scale : Nat}
    (nonzero : rightval ≠ 0) (left : lvalscale ≤ scale) :
    ∃ outcome, divideAtScale leftval lvalscale rightval rvalscale (scale + 1) = some (.quotient outcome) ∧
      (outcome = .numericRoutine ∨ scale < maxInt128Digit ∧
        outcome.Exact (roundedQuotient (rational leftval lvalscale) (rational rightval rvalscale)
          scale) scale) := by
  obtain ⟨adjust, adjusted⟩ : ∃ adjust : Nat, scale + rvalscale = adjust + lvalscale :=
    ⟨scale + rvalscale - lvalscale, by omega⟩
  have adjustScale : (scale : Int) + 1 + rvalscale - lvalscale = (adjust + 1 : Nat) := by omega
  unfold divideAtScale scaledDividend
  rw [adjustScale]
  by_cases small : (scale : Int) + 1 ≤ maxInt128Digit ∧ ((adjust + 1 : Nat) : Int) ≤ maxInt128Digit
  · rw [if_pos small, Int.toNat_natCast, getScaleMultiplier]
    by_cases inside : InSigned 128 (leftval * 10 ^ (adjust + 1))
    · have quotient := abs_tdiv_lt (Nat.succ_pos adjust) rightval inside
      have rounded := inSigned_of_abs_lt ((abs_dropDigit_le _).trans_lt quotient)
      have index : ((scale : Int) + 1 - 1).toNat = scale := by omega
      rw [signed_of_in inside]
      dsimp only
      rw [signed_of_in (inSigned_of_abs_lt quotient)]
      simp only [Option.bind_eq_bind, Option.bind_some, roundLastDigit_eq quotient, index]
      have few : scale < maxInt128Digit := by omega
      refine ⟨_, rfl, .inr ⟨few, makeNumeric_exact rounded few.le ?_⟩⟩
      rw [dropDigit_tdiv nonzero, roundedQuotient]
      congr 2
      have power : (10 : ℚ) ^ scale * 10 ^ rvalscale = 10 ^ adjust * 10 ^ lvalscale := by
        rw [← pow_add, ← pow_add, adjusted]
      rw [rational, rational, pow_succ]
      push_cast
      field_simp
      rw [mul_assoc, ← power]
      ring
    · rw [signed_of_not_in inside]
      exact ⟨_, rfl, .inl rfl⟩
  · rw [if_neg small]
    exact ⟨_, rfl, .inl rfl⟩

section

variable {bits : Nat} (sized : 0 < bits) {leftval rightval : Int} (leftIn : InSigned bits leftval)
  (rightIn : InSigned bits rightval) (nonzero : rightval ≠ 0) (lvalscale rvalscale : Nat)

include sized leftIn rightIn nonzero lvalscale rvalscale

theorem biDivide_fwrapv : biDivide .fwrapv bits leftval lvalscale rightval rvalscale =
      divideAtScale leftval lvalscale rightval rvalscale
        (quotientScale (getBiWeightDigit leftval.natAbs lvalscale)
          (getBiWeightDigit rightval.natAbs rvalscale) lvalscale rvalscale) := by
  rw [biDivide, if_neg nonzero, absoluteVal_fwrapv leftIn sized, absoluteVal_fwrapv rightIn sized]
  rfl

/-- Without wrapping, the operands that have no negative are the only ones to overflow. -/
theorem biDivide_undefined : biDivide .undefined bits leftval lvalscale rightval rvalscale =
      if leftval = -2 ^ (bits - 1) ∨ rightval = -2 ^ (bits - 1) then none
      else biDivide .fwrapv bits leftval lvalscale rightval rvalscale := by
  rw [biDivide_fwrapv sized leftIn rightIn nonzero, biDivide, if_neg nonzero,
    absoluteVal_undefined leftIn sized, absoluteVal_undefined rightIn sized]
  by_cases left : leftval = -2 ^ (bits - 1)
  · rw [if_pos left, if_pos (Or.inl left)]
    rfl
  · rw [if_neg left]
    by_cases right : rightval = -2 ^ (bits - 1)
    · rw [if_pos right, if_pos (Or.inr right)]
      rfl
    · rw [if_neg right, if_neg (not_or.mpr ⟨left, right⟩)]
      rfl

end

/-- The scale is the one of `select_div_scale`, whose limits it reaches only where the fast path is
left. -/
theorem quotientScale_eq {var1 var2 : NumericVar} : ∃ scale : Nat, var1.dscale ≤ scale ∧
      quotientScale (NumericVar.firstDigit var1.weight var1.digits)
        (NumericVar.firstDigit var2.weight var2.digits) var1.dscale var2.dscale = scale + 1 ∧
      (scale < maxInt128Digit → (selectDivScale var1 var2).toNat = scale) := by
  unfold quotientScale selectDivScale numericMinDisplayScale numericMaxDisplayScale
  dsimp only
  generalize numericMinSigDigits - _ * (decDigits : Int) = rscale
  have limit : maxInt128Digit = 38 := rfl
  exact ⟨(max (max rscale var1.dscale) var2.dscale).toNat, by omega, by omega, by omega⟩

def divisionBits : BiNumeric → BiNumeric → Nat
  | .bi64 _, .bi64 _ => 64
  | _, _ => 128

theorem biDiv_eq (larg rarg : BiNumeric) : biDiv overflow larg rarg =
      biDivide overflow (divisionBits larg rarg) larg.int128GetVal larg.scale rarg.int128GetVal
        rarg.scale := by
  cases larg <;> cases rarg <;> rfl

theorem inSigned_divisionBits (larg rarg : BiNumeric) :
    0 < divisionBits larg rarg ∧ InSigned (divisionBits larg rarg) larg.int128GetVal ∧
      InSigned (divisionBits larg rarg) rarg.int128GetVal := by
  have left := larg.valid.1
  have right := rarg.valid.1
  cases larg with
  | bi64 larg =>
    cases rarg with
    | bi64 rarg => exact ⟨Nat.succ_pos 63, larg.inRange, rarg.inRange⟩
    | bi128 rarg => exact ⟨Nat.succ_pos 127, left, right⟩
  | bi128 larg => exact ⟨Nat.succ_pos 127, left, right⟩

theorem BiNumeric.abs_rational (num : BiNumeric) :
    |num.rational| = (num.int128GetVal.natAbs : ℚ) / 10 ^ num.scale := by
  have positive : (0 : ℚ) < 10 ^ num.scale := by positivity
  rw [BiNumeric.rational, BigInteger.rational, abs_div, abs_of_pos positive, Nat.cast_natAbs, Int.cast_abs]

theorem bi64div64_least :
    bi64div64 .undefined ⟨-2 ^ 63, 0, by decide, by decide⟩ ⟨1, 0, by decide, by decide⟩ = none ∧
      bi64div64 .fwrapv ⟨-2 ^ 63, 0, by decide, by decide⟩ ⟨1, 0, by decide, by decide⟩ =
        some (.quotient (.makeNumeric64 (-2 ^ 63) 0)) := by
  have left : getBiWeightDigit (-2 ^ 63 : Int).natAbs 0 = (4, 922) := by
    simp [getBiWeightDigit, preDigits, nbase]
  have right : getBiWeightDigit (1 : Int).natAbs 0 = (0, 1) := by
    simp [getBiWeightDigit, preDigits, nbase]
  refine ⟨rfl, ?_⟩
  rw [bi64div64, biDivide_fwrapv (by decide) (by decide) (by decide) (by decide)]
  dsimp only
  rw [left, right]
  decide

/-- The division gives the rounded quotient at the scale of `numeric_div`, or leaves it to
`numeric_div`; the only overflow is the negation of an operand that is the least value of its type,
which wraps to the right bits. -/
theorem biDiv_rounded (larg rarg : BiNumeric) (nonzero : rarg.int128GetVal ≠ 0)
    (var1 var2 : NumericVar) (left : var1.magnitude = |larg.rational|)
    (right : var2.magnitude = |rarg.rational|) (leftScale : var1.dscale = larg.scale)
    (rightScale : var2.dscale = rarg.scale) :
    (∃ outcome, biDiv .fwrapv larg rarg = some (.quotient outcome) ∧ outcome.Exact
        (roundedQuotient larg.rational rarg.rational (selectDivScale var1 var2).toNat)
        (selectDivScale var1 var2).toNat) ∧
    getBiWeightDigit larg.int128GetVal.natAbs larg.scale = NumericVar.firstDigit var1.weight var1.digits ∧
    getBiWeightDigit rarg.int128GetVal.natAbs rarg.scale = NumericVar.firstDigit var2.weight var2.digits ∧
    biDiv .undefined larg rarg = if larg.int128GetVal = -2 ^ (divisionBits larg rarg - 1) ∨
          rarg.int128GetVal = -2 ^ (divisionBits larg rarg - 1) then none
      else biDiv .fwrapv larg rarg := by
  obtain ⟨sized, leftIn, rightIn⟩ := inSigned_divisionBits larg rarg
  have first := getBiWeightDigit_eq (left.trans larg.abs_rational)
  have second := getBiWeightDigit_eq (right.trans rarg.abs_rational)
  refine ⟨?_, first, second, ?_⟩
  · obtain ⟨scale, enough, selected, limits⟩ := @quotientScale_eq var1 var2
    rw [leftScale] at enough
    rw [leftScale, rightScale] at selected
    obtain ⟨outcome, result, exact⟩ :=
      @divideAtScale_exact larg.int128GetVal rarg.int128GetVal larg.scale rarg.scale scale nonzero enough
    refine ⟨outcome, ?_, ?_⟩
    · rw [biDiv_eq, biDivide_fwrapv sized leftIn rightIn nonzero, first, second, selected, result]
    · rcases exact with rfl | ⟨few, exact⟩
      · trivial
      · rw [limits few]
        exact exact
  · rw [biDiv_eq, biDiv_eq]
    exact biDivide_undefined sized leftIn rightIn nonzero _ _

theorem biDiv_rounded_sample : ∃ outcome, biDiv .fwrapv (.bi64 ⟨-7, 0, by decide, by decide⟩)
        (.bi64 ⟨2, 0, by decide, by decide⟩) = some (.quotient outcome) ∧
      outcome.Exact (roundedQuotient (-7) 2 16) 16 := by
  have selected : (selectDivScale ⟨0, [7], 0, by decide⟩ ⟨0, [2], 0, by decide⟩).toNat = 16 := by
    decide
  have found := (biDiv_rounded (.bi64 ⟨-7, 0, by decide, by decide⟩)
    (.bi64 ⟨2, 0, by decide, by decide⟩) (by decide) ⟨0, [7], 0, by decide⟩ ⟨0, [2], 0, by decide⟩
    (by norm_num [NumericVar.magnitude, digitsValue, BiNumeric.rational, rational,
      BiNumeric.int128GetVal, BiNumeric.scale])
    (by norm_num [NumericVar.magnitude, digitsValue, BiNumeric.rational, rational,
      BiNumeric.int128GetVal, BiNumeric.scale]) rfl rfl).1
  rw [selected] at found
  simpa [BiNumeric.rational, rational, BiNumeric.int128GetVal, BiNumeric.scale] using found

end OpenGauss.BigInteger
