import OpenGauss.BigInteger.Compare

/-! The accumulator of sums of numerics, `accum_sum_add` and its relatives of `numeric.cpp`:
positive and negative values in two buffers whose digits put off the carry. -/

namespace OpenGauss.BigInteger

/-- A numeric with its sign, as the arithmetic works on it. -/
structure SignedVar where
  weight : Int
  negative : Bool
  dscale : Nat
  digits : List Nat
deriving DecidableEq

namespace SignedVar

def value (var : SignedVar) : ℚ :=
  if var.negative then -digitsValue var.weight var.digits else digitsValue var.weight var.digits

def rscale (var : SignedVar) : Int := var.digits.length - var.weight - 1

def digitAt (var : SignedVar) (i : Int) : Nat := if 0 ≤ i then var.digits.getD i.toNat 0 else 0

end SignedVar

def constZero : SignedVar := ⟨0, false, 0, []⟩

def initVarFromNum (n : NumericData) : SignedVar := ⟨n.weight, n.negative, n.dscale, n.nData⟩

def stripLeading : Int → List Nat → Int × List Nat
  | weight, [] => (weight, [])
  | weight, digit :: digits =>
    if digit = 0 then stripLeading (weight - 1) digits else (weight, digit :: digits)

def stripVar (var : SignedVar) : SignedVar :=
  let (weight, digits) := stripLeading var.weight var.digits
  let digits := digits.rdropWhile (· == 0)
  if digits = [] then { var with weight := 0, negative := false, digits := [] }
  else { var with weight := weight, digits := digits }

variable (var1 var2 : SignedVar)

/-- The pairs of digits that the loops over the result meet, the first place first. -/
def alignedDigits (resWeight : Int) : List (Nat × Nat) :=
  let resRscale := max var1.rscale var2.rscale
  let resNdigits :=
    if resRscale + resWeight + 1 ≤ 0 then 1 else (resRscale + resWeight + 1).toNat
  (List.range resNdigits).map fun i : Nat =>
    (var1.digitAt (resRscale + var1.weight + 1 - (resNdigits - i)),
      var2.digitAt (resRscale + var2.weight + 1 - (resNdigits - i)))

/-- The loop of `add_abs` from the last pair on: the digits and the carry. -/
def addPairs : List (Nat × Nat) → List Nat × Nat
  | [] => ([], 0)
  | (digit1, digit2) :: pairs =>
    let (digits, carry) := addPairs pairs
    let sum := carry + digit1 + digit2
    if nbase ≤ sum then ((sum - nbase) :: digits, 1) else (sum :: digits, 0)

/-- The one of `sub_abs`: the digits and the borrow. -/
def subPairs : List (Nat × Nat) → List Nat × Int
  | [] => ([], 0)
  | (digit1, digit2) :: pairs =>
    let (digits, borrow) := subPairs pairs
    let difference := borrow + digit1 - digit2
    if difference < 0 then ((difference + nbase).toNat :: digits, -1)
    else (difference.toNat :: digits, 0)

/-- `none` where the assertion on the carry fails. -/
def addAbs : Option SignedVar :=
  let resWeight := max var1.weight var2.weight + 1
  let (digits, carry) := addPairs (alignedDigits var1 var2 resWeight)
  if carry = 0 then some (stripVar ⟨resWeight, false, max var1.dscale var2.dscale, digits⟩)
  else none

def subAbs : Option SignedVar :=
  let (digits, borrow) := subPairs (alignedDigits var1 var2 var1.weight)
  if borrow = 0 then some (stripVar ⟨var1.weight, false, max var1.dscale var2.dscale, digits⟩)
  else none

def addVar : Option SignedVar := do
  if var1.negative = var2.negative then
    let sum ← addAbs var1 var2
    some { sum with negative := var1.negative }
  else
    let order := cmpAbsCommon var1.digits var1.weight var2.digits var2.weight
    if order = 0 then some ⟨0, false, max var1.dscale var2.dscale, []⟩
    else if order = 1 then
      let difference ← subAbs var1 var2
      some { difference with negative := var1.negative }
    else
      let difference ← subAbs var2 var1
      some { difference with negative := var2.negative }

/-- Both buffers are of the same size. A new one is zero in all fields. -/
structure NumericSumAccum where
  weight : Int
  dscale : Nat
  numUncarried : Nat
  haveCarrySpace : Bool
  posDigits : List Nat
  negDigits : List Nat
deriving DecidableEq

namespace NumericSumAccum

def zero : NumericSumAccum := ⟨0, 0, 0, false, [], []⟩

def ndigits (accum : NumericSumAccum) : Nat := accum.posDigits.length

end NumericSumAccum

/-- A digit of 32 bits, `none` where it overflows. -/
def int32Digit (digit : Nat) : Option Nat := if digit < 2 ^ 31 then some digit else none

/-- The loop of `accum_sum_add`, `none` where it leaves the buffer. -/
def addDigitsAt : List Nat → Nat → List Nat → Option (List Nat)
  | digits, _, [] => some digits
  | [], _, _ :: _ => none
  | digit :: digits, 0, valDigit :: valDigits => do
      let sum ← int32Digit (digit + valDigit)
      let sums ← addDigitsAt digits 0 valDigits
      some (sum :: sums)
  | digit :: digits, offset + 1, valDigit :: valDigits => do
      let sums ← addDigitsAt digits offset (valDigit :: valDigits)
      some (digit :: sums)

/-- A loop of `accum_sum_carry` from the last digit on: the digits and the last carry. -/
def carryDigits : List Nat → Option (List Nat × Nat)
  | [] => some ([], 0)
  | digit :: digits => do
      let (carried, carry) ← carryDigits digits
      let newdig ← int32Digit (digit + carry)
      if nbase ≤ newdig then some ((newdig - newdig / nbase * nbase) :: carried, newdig / nbase)
      else some (newdig :: carried, 0)

variable (accum : NumericSumAccum)

/-- `none` also where the assertion on the reserved digits fails. -/
def accumSumCarry : Option NumericSumAccum :=
  if accum.numUncarried = 0 then some accum
  else if accum.posDigits.head? = some 0 ∧ accum.negDigits.head? = some 0 then do
    let (posDigits, _) ← carryDigits accum.posDigits
    let (negDigits, _) ← carryDigits accum.negDigits
    let used := 0 < posDigits.headD 0 ∨ 0 < negDigits.headD 0
    some { accum with
      posDigits := posDigits
      negDigits := negDigits
      haveCarrySpace := if used then false else accum.haveCarrySpace
      numUncarried := 0 }
  else none

/-- The digits copied into a new buffer of zeros, `none` where it has no room for them. -/
def copyDigits (ndigits weightdiff : Int) (digits : List Nat) : Option (List Nat) :=
  if 0 ≤ weightdiff ∧ weightdiff + digits.length ≤ ndigits then
    some (List.replicate weightdiff.toNat 0 ++ digits ++
      List.replicate (ndigits - weightdiff - digits.length).toNat 0)
  else none

/-- The weight and the number of digits that make room for a value and one digit in front. -/
def rescaledSize (val : SignedVar) : Int × Int :=
  let (accumWeight, accumNdigits) : Int × Int :=
    if accum.weight ≤ val.weight then
      (val.weight + 1, accum.ndigits + (val.weight + 1 - accum.weight))
    else if accum.haveCarrySpace = false then (accum.weight + 1, accum.ndigits + 1)
    else (accum.weight, accum.ndigits)
  let accumRscale := accumNdigits - accumWeight - 1
  if accumRscale < val.rscale then (accumWeight, accumNdigits + (val.rscale - accumRscale))
  else (accumWeight, accumNdigits)

def accumSumRescale (val : SignedVar) : Option NumericSumAccum := do
  let (accumWeight, accumNdigits) := rescaledSize accum val
  let dscale := if accum.dscale < val.dscale then val.dscale else accum.dscale
  if accumNdigits ≠ accum.ndigits ∨ accumWeight ≠ accum.weight then
    let posDigits ← copyDigits accumNdigits (accumWeight - accum.weight) accum.posDigits
    let negDigits ← copyDigits accumNdigits (accumWeight - accum.weight) accum.negDigits
    if posDigits.head? = some 0 ∧ negDigits.head? = some 0 then
      some ⟨accumWeight, dscale, accum.numUncarried, true, posDigits, negDigits⟩
    else none
  else some { accum with dscale := dscale }

def accumSumAdd (val : SignedVar) : Option NumericSumAccum := do
  let carried ←
    (if accum.numUncarried = nbase - 1 then accumSumCarry accum else some accum : Option _)
  let scaled ← accumSumRescale carried val
  if scaled.weight < val.weight ∧ val.digits ≠ [] then none
  else
    let i := (scaled.weight - val.weight).toNat
    if val.negative = false then
      let posDigits ← addDigitsAt scaled.posDigits i val.digits
      some { scaled with posDigits := posDigits, numUncarried := scaled.numUncarried + 1 }
    else
      let negDigits ← addDigitsAt scaled.negDigits i val.digits
      some { scaled with negDigits := negDigits, numUncarried := scaled.numUncarried + 1 }

/-- The accumulator after the last carry, and the sum. -/
def accumSumFinal : Option (NumericSumAccum × SignedVar) := do
  if accum.ndigits = 0 then some (accum, constZero)
  else
    let accum ← accumSumCarry accum
    if ∀ digit ∈ accum.posDigits ++ accum.negDigits, digit < nbase then
      let result ← addVar ⟨accum.weight, false, accum.dscale, accum.posDigits⟩
        ⟨accum.weight, true, accum.dscale, accum.negDigits⟩
      some (accum, stripVar result)
    else none

/-- One value of `do_numeric_accum_numeric`; NaN does not reach the accumulator. -/
def accumNumeric (newval : NumericDatum) : Option NumericSumAccum := do
  match ← newval.bitonumeric with
  | .normal n => accumSumAdd accum (initVarFromNum n)
  | _ => none

variable (var : SignedVar) (weight : Int)

theorem digitsValue_zeros (count : Nat) :
    digitsValue weight (List.replicate count 0) = 0 := by
  induction count generalizing weight with
  | zero => rfl
  | succ count ih => rw [List.replicate_succ, digitsValue, ih, Nat.cast_zero, zero_mul, add_zero]

theorem stripLeading_spec {digits : List Nat} :
    digitsValue (stripLeading weight digits).1 (stripLeading weight digits).2 =
      digitsValue weight digits := by
  induction digits generalizing weight with
  | nil => rfl
  | cons digit digits ih =>
    rw [stripLeading]
    split_ifs with zero
    · rw [ih, digitsValue, zero, Nat.cast_zero, zero_mul, zero_add]
    · rfl

theorem digitsValue_rdropWhile (digits : List Nat) :
    digitsValue weight (digits.rdropWhile (· == 0)) = digitsValue weight digits := by
  induction digits using List.reverseRecOn with
  | nil => rfl
  | append_singleton digits digit ih =>
    by_cases zero : digit = 0
    · rw [List.rdropWhile_concat_pos _ _ _ (by simpa using zero), ih, digitsValue_append, zero]
      simp [digitsValue]
    · rw [List.rdropWhile_concat_neg _ _ _ (by simpa using zero)]

theorem stripVar_value : (stripVar var).value = var.value := by
  have same := digitsValue_rdropWhile (stripLeading var.weight var.digits).1
    (stripLeading var.weight var.digits).2
  rw [stripLeading_spec] at same
  unfold stripVar
  dsimp only
  split_ifs with empty
  · rw [empty, digitsValue] at same
    rw [SignedVar.value, SignedVar.value, ← same, digitsValue, neg_zero, ite_self, ite_self]
  · rw [SignedVar.value, SignedVar.value, same]

theorem stripVar_dscale : (stripVar var).dscale = var.dscale := by
  unfold stripVar
  dsimp only
  split_ifs <;> rfl

theorem subPairs_spec {pairs : List (Nat × Nat)} (small : ∀ pair ∈ pairs, pair.1 < nbase ∧ pair.2 < nbase) :
    (∀ digit ∈ (subPairs pairs).1, digit < nbase) ∧ (subPairs pairs).1.length = pairs.length ∧
      ((subPairs pairs).2 = 0 ∨ (subPairs pairs).2 = -1) ∧
      (digitsNat (subPairs pairs).1 : Int) + (subPairs pairs).2 * nbase ^ pairs.length =
        digitsNat (pairs.map Prod.fst) - digitsNat (pairs.map Prod.snd) := by
  induction pairs with
  | nil => exact ⟨by simp [subPairs], rfl, .inl rfl, by simp [subPairs, digitsNat]⟩
  | cons pair pairs ih =>
    obtain ⟨⟨first, second⟩, others⟩ := List.forall_mem_cons.mp small
    obtain ⟨smallRest, length, borrow, value⟩ := ih others
    have lengths : (pairs.map Prod.fst).length = pairs.length ∧
        (pairs.map Prod.snd).length = pairs.length := by simp
    rw [List.map_cons, List.map_cons, digitsNat_cons, digitsNat_cons, lengths.1, lengths.2,
      List.length_cons, pow_succ, subPairs]
    dsimp only
    have base : (nbase : Int) = 10000 := rfl
    have base' : nbase = 10000 := rfl
    split_ifs with negative
    · have digit : (((subPairs pairs).2 + pair.1 - pair.2 + nbase).toNat : Int) =
          (subPairs pairs).2 + pair.1 - pair.2 + nbase := Int.toNat_of_nonneg (by omega)
      refine ⟨?_, by rw [List.length_cons, length], .inr rfl, ?_⟩
      · exact List.forall_mem_cons.mpr ⟨by omega, smallRest⟩
      · dsimp only
        rw [digitsNat_cons, length]
        push_cast
        rw [digit]
        linear_combination value
    · have digit : (((subPairs pairs).2 + pair.1 - pair.2).toNat : Int) =
          (subPairs pairs).2 + pair.1 - pair.2 := Int.toNat_of_nonneg (by omega)
      refine ⟨?_, by rw [List.length_cons, length], .inl rfl, ?_⟩
      · exact List.forall_mem_cons.mpr ⟨by omega, smallRest⟩
      · dsimp only
        rw [digitsNat_cons, length]
        push_cast
        rw [digit]
        linear_combination value

section SameShape

variable {var1 var2 : SignedVar} (weights : var1.weight = var2.weight)
  (lengths : var1.digits.length = var2.digits.length) (nonempty : var1.digits ≠ [])
include weights lengths nonempty

theorem alignedDigits_eq : alignedDigits var1 var2 var1.weight = var1.digits.zip var2.digits := by
  have pos := List.length_pos_of_ne_nil nonempty
  have rscale : max var1.rscale var2.rscale = var1.digits.length - var1.weight - 1 := by
    rw [SignedVar.rscale, SignedVar.rscale, weights, lengths, max_self]
  have count : ((var1.digits.length : Int) - var1.weight - 1 + var1.weight + 1).toNat =
      var1.digits.length := by omega
  unfold alignedDigits
  dsimp only
  rw [rscale, if_neg (by omega), count]
  apply List.ext_getElem
  · simp [lengths]
  · intro i inside other
    have below : i < var1.digits.length := by simpa using inside
    have index : ∀ weight : Int, (var1.digits.length : Int) - var1.weight - 1 + weight + 1 -
        (var1.digits.length - i) = i + (weight - var1.weight) := by
      intro weight
      ring
    simp only [List.getElem_map, List.getElem_range, List.getElem_zip, index, ← weights, sub_self,
      add_zero, SignedVar.digitAt]
    rw [if_pos (by omega), if_pos (by omega), Int.toNat_natCast, List.getD_eq_getElem?_getD,
      List.getD_eq_getElem?_getD, List.getElem?_eq_getElem below,
      List.getElem?_eq_getElem (lengths ▸ below)]
    rfl

variable (small1 : ∀ digit ∈ var1.digits, digit < nbase) (small2 : ∀ digit ∈ var2.digits, digit < nbase)
include small1 small2

theorem subAbs_spec (more : digitsValue var2.weight var2.digits ≤ digitsValue var1.weight var1.digits) :
    ∃ difference, subAbs var1 var2 = some difference ∧ difference.negative = false ∧ difference.value =
        digitsValue var1.weight var1.digits - digitsValue var2.weight var2.digits ∧
      difference.dscale = max var1.dscale var2.dscale := by
  have pairs : ∀ pair ∈ var1.digits.zip var2.digits, pair.1 < nbase ∧ pair.2 < nbase :=
    fun pair member => ⟨small1 _ (List.of_mem_zip member).1, small2 _ (List.of_mem_zip member).2⟩
  obtain ⟨small, length, borrow, value⟩ := subPairs_spec pairs
  have length' : (var1.digits.zip var2.digits).length = var1.digits.length := by simp [lengths]
  rw [List.map_fst_zip lengths.le, List.map_snd_zip lengths.ge, length'] at value
  rw [length'] at length
  have power : (0 : ℚ) < (nbase : ℚ) ^ (var1.weight + 1 - var1.digits.length) :=
    zpow_pos (by norm_num [nbase]) _
  have order : digitsNat var2.digits ≤ digitsNat var1.digits := by
    rw [digitsValue_eq, digitsValue_eq, ← weights, ← lengths] at more
    exact_mod_cast le_of_mul_le_mul_right more power
  have below := digitsNat_lt small
  rw [length] at below
  have absent : (subPairs (var1.digits.zip var2.digits)).2 = 0 := by
    refine borrow.resolve_right fun borrowed => ?_
    rw [borrowed] at value
    have bound : (digitsNat (subPairs (var1.digits.zip var2.digits)).1 : Int) <
        nbase ^ var1.digits.length := by exact_mod_cast below
    omega
  rw [absent, zero_mul, add_zero] at value
  unfold subAbs
  rw [alignedDigits_eq weights lengths nonempty]
  dsimp only
  rw [if_pos absent]
  refine ⟨_, rfl, ?_, ?_, stripVar_dscale _⟩
  · unfold stripVar
    dsimp only
    split_ifs <;> rfl
  · have shifted : (digitsNat (subPairs (var1.digits.zip var2.digits)).1 : ℚ) =
        digitsNat var1.digits - digitsNat var2.digits := by exact_mod_cast value
    rw [stripVar_value, SignedVar.value, if_neg Bool.false_ne_true]
    dsimp only
    rw [digitsValue_eq, length, digitsValue_eq, digitsValue_eq, ← weights, ← lengths, shifted, sub_mul]

end SameShape

/-- Positive and negative digits of one shape are added exactly. -/
theorem addVar_spec {weight : Int} {dscale : Nat} {posDigits negDigits : List Nat}
    (lengths : posDigits.length = negDigits.length) (nonempty : posDigits ≠ [])
    (posSmall : ∀ digit ∈ posDigits, digit < nbase)
    (negSmall : ∀ digit ∈ negDigits, digit < nbase) :
    ∃ sum, addVar ⟨weight, false, dscale, posDigits⟩ ⟨weight, true, dscale, negDigits⟩ = some sum ∧
      sum.value = digitsValue weight posDigits - digitsValue weight negDigits ∧
      sum.dscale = dscale := by
  unfold addVar
  dsimp only
  rw [if_neg Bool.false_ne_true, cmpAbsCommon_spec posSmall negSmall]
  rcases lt_trichotomy (digitsValue weight posDigits) (digitsValue weight negDigits) with
    less | same | more
  · have others : negDigits ≠ [] := by
      rw [← List.length_pos_iff, ← lengths]
      exact List.length_pos_of_ne_nil nonempty
    obtain ⟨difference, run, positive, value, scale⟩ :=
      @subAbs_spec ⟨weight, true, dscale, negDigits⟩ ⟨weight, false, dscale, posDigits⟩ rfl
        lengths.symm others negSmall posSmall less.le
    have plus : digitsValue difference.weight difference.digits =
        digitsValue weight negDigits - digitsValue weight posDigits := by
      rwa [SignedVar.value, positive, if_neg Bool.false_ne_true] at value
    rw [threeWay_lt less, if_neg (by decide), if_neg (by decide), run, Option.bind_eq_bind,
      Option.bind_some]
    refine ⟨_, rfl, ?_, scale.trans (max_self _)⟩
    rw [SignedVar.value, if_pos rfl, plus, neg_sub]
  · rw [same, threeWay, if_neg (lt_irrefl _), if_neg (lt_irrefl _), if_pos rfl]
    refine ⟨_, rfl, ?_, max_self _⟩
    rw [SignedVar.value, if_neg Bool.false_ne_true, digitsValue, sub_self]
  · obtain ⟨difference, run, positive, value, scale⟩ :=
      @subAbs_spec ⟨weight, false, dscale, posDigits⟩ ⟨weight, true, dscale, negDigits⟩ rfl
        lengths nonempty posSmall negSmall more.le
    rw [threeWay_gt more, if_neg (by decide), if_pos rfl, run, Option.bind_eq_bind,
      Option.bind_some]
    refine ⟨_, rfl, ?_, scale.trans (max_self _)⟩
    rw [← value, SignedVar.value, SignedVar.value, positive]

theorem int32Digit_of_lt {digit : Nat} (small : digit < 2 ^ 31) : int32Digit digit = some digit :=
  if_pos small

/-- A value whose places are all in the buffer is added to it, and no digit overflows. -/
theorem addDigitsAt_spec {digits valDigits : List Nat} {offset bound : Nat}
    (fits : offset + valDigits.length ≤ digits.length) (low : ∀ digit ∈ digits, digit ≤ bound)
    (small : ∀ digit ∈ valDigits, digit < nbase) (room : bound + (nbase - 1) < 2 ^ 31) :
    ∃ sums, addDigitsAt digits offset valDigits = some sums ∧ sums.length = digits.length ∧
      (∀ sum ∈ sums, sum ≤ bound + (nbase - 1)) ∧
      (∀ weight, digitsValue weight sums =
        digitsValue weight digits + digitsValue (weight - offset) valDigits) ∧
      (0 < offset → sums.head? = digits.head?) := by
  induction digits, offset, valDigits using addDigitsAt.induct with
  | case1 digits offset =>
    refine ⟨digits, by rw [addDigitsAt], rfl, ?_, ?_, fun _ => rfl⟩
    · exact fun digit member => (low digit member).trans (Nat.le_add_right _ _)
    · intro weight
      rw [digitsValue.eq_def (weight - offset), add_zero]
  | case2 offset valDigit valDigits => simp at fits
  | case3 digit digits valDigit valDigits ih =>
    obtain ⟨first, others⟩ := List.forall_mem_cons.mp low
    obtain ⟨valFirst, valOthers⟩ := List.forall_mem_cons.mp small
    obtain ⟨sums, run, length, below, value, -⟩ := ih (by simpa using fits) others valOthers
    have sum : int32Digit (digit + valDigit) = some (digit + valDigit) :=
      int32Digit_of_lt (by omega)
    rw [addDigitsAt, sum, run, Option.bind_eq_bind, Option.bind_some, Option.bind_eq_bind, Option.bind_some]
    refine ⟨_, rfl, by rw [List.length_cons, length, List.length_cons], ?_, ?_, by simp⟩
    · exact List.forall_mem_cons.mpr ⟨by omega, below⟩
    · intro weight
      rw [digitsValue, digitsValue, value, Nat.cast_zero, sub_zero, sub_zero, digitsValue]
      push_cast
      ring
  | case4 digit digits offset valDigit valDigits ih =>
    obtain ⟨first, others⟩ := List.forall_mem_cons.mp low
    obtain ⟨sums, run, length, below, value, -⟩ :=
      ih (by simp at fits ⊢; omega) others small
    rw [addDigitsAt, run, Option.bind_eq_bind, Option.bind_some]
    refine ⟨_, rfl, by rw [List.length_cons, length, List.length_cons], ?_, ?_, fun _ => rfl⟩
    · exact List.forall_mem_cons.mpr ⟨by omega, below⟩
    · intro weight
      have shift : weight - 1 - (offset : Int) = weight - ((offset + 1 : Nat) : Int) := by
        push_cast
        ring
      rw [digitsValue, digitsValue, value, shift, add_assoc]

/-- The digits that were put off are carried without overflow, and less than one digit is left. -/
theorem carryDigits_spec {digits : List Nat} (low : ∀ digit ∈ digits, digit ≤ nbase * (nbase - 1)) :
    ∃ carried carry, carryDigits digits = some (carried, carry) ∧ carry < nbase ∧
      (∀ digit ∈ carried, digit < nbase) ∧ carried.length = digits.length ∧
      (digits.head? = some 0 → carry = 0) ∧
      ∀ weight, digitsValue weight carried + carry * (nbase : ℚ) ^ (weight + 1) =
        digitsValue weight digits := by
  induction digits with
  | nil => exact ⟨[], 0, rfl, by decide, by simp, rfl, fun _ => rfl, by simp [digitsValue]⟩
  | cons digit digits ih =>
    obtain ⟨first, others⟩ := List.forall_mem_cons.mp low
    obtain ⟨carried, carry, run, less, small, length, -, value⟩ := ih others
    have most : nbase * (nbase - 1) = 99990000 := rfl
    have base : nbase = 10000 := rfl
    have narrow : int32Digit (digit + carry) = some (digit + carry) :=
      int32Digit_of_lt (by omega)
    have step : ∀ weight : Int, (nbase : ℚ) ^ (weight + 1) = nbase * (nbase : ℚ) ^ weight := by
      intro weight
      rw [zpow_add_one₀ (by norm_num [nbase]), mul_comm]
    have rest : ∀ weight, digitsValue (weight - 1) carried + carry * (nbase : ℚ) ^ weight =
        digitsValue (weight - 1) digits := by
      intro weight
      rw [← value, sub_add_cancel]
    rw [carryDigits, run, Option.bind_eq_bind, Option.bind_some]
    dsimp only
    rw [narrow, Option.bind_eq_bind, Option.bind_some]
    split_ifs with wide
    · have whole : (digit + carry) / nbase * nbase ≤ digit + carry := Nat.div_mul_le_self _ _
      have below : digit + carry < nbase * nbase := by
        rw [base]
        omega
      have quotient : (digit + carry) / nbase < nbase := Nat.div_lt_of_lt_mul below
      have remainder : digit + carry - (digit + carry) / nbase * nbase < nbase := by
        rw [← Nat.mod_eq_sub_div_mul]
        exact Nat.mod_lt _ (by decide)
      refine ⟨_, _, rfl, quotient, ?_, by rw [List.length_cons, length, List.length_cons], ?_, ?_⟩
      · exact List.forall_mem_cons.mpr ⟨remainder, small⟩
      · intro zero
        have gone : digit = 0 := by simpa using zero
        omega
      · intro weight
        rw [digitsValue, digitsValue, ← rest, step, Nat.cast_sub whole]
        push_cast
        ring
    · refine ⟨_, _, rfl, by omega, ?_, by rw [List.length_cons, length, List.length_cons],
        fun _ => rfl, ?_⟩
      · exact List.forall_mem_cons.mpr ⟨by omega, small⟩
      · intro weight
        rw [digitsValue, digitsValue, ← rest]
        push_cast
        ring

theorem copyDigits_spec {weightdiff ndigits : Nat} {digits : List Nat}
    (fits : weightdiff + digits.length ≤ ndigits) :
    ∃ copied, copyDigits ndigits weightdiff digits = some copied ∧ copied.length = ndigits ∧
      (∀ digit ∈ copied, digit = 0 ∨ digit ∈ digits) ∧
      (∀ weight, digitsValue (weight + weightdiff) copied = digitsValue weight digits) ∧
      (0 < weightdiff ∨ digits.head? = some 0 → copied.head? = some 0) := by
  refine ⟨_, if_pos (by omega), ?_, ?_, ?_, ?_⟩
  · simp only [List.length_append, List.length_replicate]
    omega
  · intro digit member
    simp only [List.mem_append, List.mem_replicate] at member
    tauto
  · intro weight
    rw [List.append_assoc, digitsValue_append, digitsValue_zeros, zero_add, digitsValue_append,
      digitsValue_zeros, add_zero, List.length_replicate, Int.toNat_natCast, add_sub_cancel_right]
  · rintro (front | reserved)
    · obtain ⟨more, rfl⟩ := Nat.exists_eq_succ_of_ne_zero front.ne'
      rfl
    · cases digits with
      | nil => simp at reserved
      | cons digit digits =>
        obtain rfl : digit = 0 := by simpa using reserved
        cases weightdiff <;> rfl

/-- A buffer has a digit left in front, and each digit is what the values since the last carry can
have made of it. -/
structure Uncarried (accum : NumericSumAccum) (digits : List Nat) : Prop where
  reserved : accum.haveCarrySpace = true → digits.head? = some 0
  bound : ∀ digit ∈ digits, digit ≤ (accum.numUncarried + 1) * (nbase - 1)

structure Sums (accum : NumericSumAccum) (number : ℚ) : Prop where
  sameSize : accum.negDigits.length = accum.posDigits.length
  few : accum.numUncarried < nbase
  used : accum.haveCarrySpace = false → accum.numUncarried = 0
  empty : accum.posDigits = [] → accum.dscale = 0
  pos : Uncarried accum accum.posDigits
  neg : Uncarried accum accum.negDigits
  value : digitsValue accum.weight accum.posDigits - digitsValue accum.weight accum.negDigits = number

theorem sums_zero : Sums .zero 0 := by
  refine ⟨rfl, by decide, fun _ => rfl, fun _ => rfl, ⟨?_, by simp [NumericSumAccum.zero]⟩,
    ⟨?_, by simp [NumericSumAccum.zero]⟩, sub_self _⟩
  all_goals exact fun space => Bool.noConfusion space

section Steps

variable {accum : NumericSumAccum} {number : ℚ} (sums : Sums accum number)
include sums

theorem Sums.digit_le {digits : List Nat} (buffer : Uncarried accum digits) :
    ∀ digit ∈ digits, digit ≤ nbase * (nbase - 1) := by
  intro digit member
  exact (buffer.bound digit member).trans (Nat.mul_le_mul_right _ sums.few)

/-- The carry changes no number; afterwards every digit is one of base `NBASE`. -/
theorem accumSumCarry_spec : ∃ carried, accumSumCarry accum = some carried ∧ Sums carried number ∧
      carried.numUncarried = 0 ∧ carried.dscale = accum.dscale ∧
      carried.posDigits.length = accum.posDigits.length ∧
      ∀ digit ∈ carried.posDigits ++ carried.negDigits, digit < nbase := by
  unfold accumSumCarry
  by_cases nothing : accum.numUncarried = 0
  · rw [if_pos nothing]
    refine ⟨accum, rfl, sums, nothing, rfl, rfl, ?_⟩
    intro digit member
    have bound : digit ≤ (accum.numUncarried + 1) * (nbase - 1) :=
      (List.mem_append.mp member).elim (sums.pos.bound digit) (sums.neg.bound digit)
    rw [nothing, zero_add, one_mul] at bound
    exact bound.trans_lt (by decide)
  · have space : accum.haveCarrySpace = true := by
      by_contra gone
      exact nothing (sums.used (by simpa using gone))
    have posHead := sums.pos.reserved space
    have negHead := sums.neg.reserved space
    obtain ⟨posDigits, posCarry, posRun, -, posSmall, posLength, posNone, posValue⟩ :=
      carryDigits_spec (sums.digit_le sums.pos)
    obtain ⟨negDigits, negCarry, negRun, -, negSmall, negLength, negNone, negValue⟩ :=
      carryDigits_spec (sums.digit_le sums.neg)
    have posSame := posValue accum.weight
    have negSame := negValue accum.weight
    rw [posNone posHead, Nat.cast_zero, zero_mul, add_zero] at posSame
    rw [negNone negHead, Nat.cast_zero, zero_mul, add_zero] at negSame
    rw [if_neg nothing, if_pos ⟨posHead, negHead⟩, posRun, negRun, Option.bind_eq_bind, Option.bind_some]
    dsimp only
    rw [Option.bind_some]
    have head : ∀ digits : List Nat, digits ≠ [] → ¬ 0 < digits.headD 0 → digits.head? = some 0 := by
      intro digits nonempty zero
      obtain ⟨digit, rest, rfl⟩ := List.exists_cons_of_ne_nil nonempty
      have first : digit = 0 := Nat.eq_zero_of_not_pos zero
      rw [first, List.head?_cons]
    have carriedSpace : (if 0 < posDigits.headD 0 ∨ 0 < negDigits.headD 0 then false
        else accum.haveCarrySpace) = true →
        ¬ 0 < posDigits.headD 0 ∧ ¬ 0 < negDigits.headD 0 := by
      intro kept
      split_ifs at kept with nonzero
      exact not_or.mp nonzero
    have filled : ∀ old new : List Nat, old.head? = some 0 → new.length = old.length → new ≠ [] := by
      intro old new reserved length empty
      rw [empty, List.length_nil, eq_comm, List.length_eq_zero_iff] at length
      rw [length] at reserved
      simp at reserved
    refine ⟨_, rfl, ⟨by rw [negLength, posLength, sums.sameSize], (by decide : 0 < nbase),
      fun _ => rfl, ?_,
      ⟨?_, ?_⟩, ⟨?_, ?_⟩, ?_⟩, rfl, rfl, posLength, ?_⟩
    · exact fun gone => absurd gone (filled _ _ posHead posLength)
    · exact fun kept => head _ (filled _ _ posHead posLength) (carriedSpace kept).1
    · exact fun digit member => by simpa using Nat.le_pred_of_lt (posSmall digit member)
    · exact fun kept => head _ (filled _ _ negHead negLength) (carriedSpace kept).2
    · exact fun digit member => by simpa using Nat.le_pred_of_lt (negSmall digit member)
    · rw [← sums.value]
      exact congrArg₂ (· - ·) posSame negSame
    · exact fun digit member => (List.mem_append.mp member).elim (posSmall digit) (negSmall digit)

end Steps

/-- There is room for a value. -/
structure Fits (accum : NumericSumAccum) (val : SignedVar) : Prop where
  space : accum.haveCarrySpace = true
  weight : val.weight < accum.weight
  size : (accum.weight - val.weight) + val.digits.length ≤ (accum.posDigits.length : Int)

theorem rescaledSize_spec (val : SignedVar) :
    accum.weight ≤ (rescaledSize accum val).1 ∧ val.weight < (rescaledSize accum val).1 ∧
      (accum.haveCarrySpace = false → accum.weight < (rescaledSize accum val).1) ∧
      (rescaledSize accum val).1 - accum.weight + accum.ndigits ≤ (rescaledSize accum val).2 ∧
      (rescaledSize accum val).1 - val.weight + val.digits.length ≤ (rescaledSize accum val).2 := by
  unfold rescaledSize SignedVar.rscale
  by_cases above : accum.weight ≤ val.weight
  · simp only [if_pos above]
    split_ifs
    all_goals refine ⟨?_, ?_, fun _ => ?_, ?_, ?_⟩ <;> dsimp only <;> omega
  · by_cases gone : accum.haveCarrySpace = false
    · simp only [if_neg above, if_pos gone]
      split_ifs
      all_goals refine ⟨?_, ?_, fun _ => ?_, ?_, ?_⟩ <;> dsimp only <;> omega
    · simp only [if_neg above, if_neg gone]
      split_ifs
      all_goals refine ⟨?_, ?_, fun _ => by contradiction, ?_, ?_⟩ <;> dsimp only <;> omega

/-- A buffer copied to a new size has the same digits at their places. -/
theorem Uncarried.copied {accum : NumericSumAccum} {digits : List Nat}
    (buffer : Uncarried accum digits) {weightdiff ndigits : Nat}
    (fits : weightdiff + digits.length ≤ ndigits)
    (front : accum.haveCarrySpace = false → 0 < weightdiff) :
    ∃ copied, copyDigits ndigits weightdiff digits = some copied ∧ copied.length = ndigits ∧
      copied.head? = some 0 ∧
      (∀ digit ∈ copied, digit ≤ (accum.numUncarried + 1) * (nbase - 1)) ∧
      digitsValue (accum.weight + weightdiff) copied = digitsValue accum.weight digits := by
  obtain ⟨copied, run, length, same, value, head⟩ := copyDigits_spec fits
  refine ⟨copied, run, length, head ?_, ?_, value accum.weight⟩
  · cases space : accum.haveCarrySpace with
    | false => exact .inl (front space)
    | true => exact .inr (buffer.reserved space)
  · intro digit member
    obtain rfl | old := same digit member
    · exact Nat.zero_le _
    · exact buffer.bound digit old

section Steps

variable {accum : NumericSumAccum} {number : ℚ} (sums : Sums accum number)
include sums

theorem Sums.nonempty (space : accum.haveCarrySpace = true) : accum.posDigits ≠ [] := by
  intro empty
  have reserved := sums.pos.reserved space
  rw [empty] at reserved
  simp at reserved

/-- The buffers get room for a value, and the number stays. -/
theorem accumSumRescale_spec (val : SignedVar) :
    ∃ scaled, accumSumRescale accum val = some scaled ∧ Sums scaled number ∧ Fits scaled val ∧
      scaled.numUncarried = accum.numUncarried ∧
      scaled.dscale = max accum.dscale val.dscale := by
  obtain ⟨wider, above, front, room, fits⟩ := rescaledSize_spec accum val
  have dscale : (if accum.dscale < val.dscale then val.dscale else accum.dscale) =
      max accum.dscale val.dscale := by
    rw [max_def]
    split_ifs <;> omega
  unfold accumSumRescale
  rw [dscale]
  generalize rescaledSize accum val = size at *
  obtain ⟨accumWeight, accumNdigits⟩ := size
  dsimp only at *
  by_cases grows : accumNdigits ≠ accum.ndigits ∨ accumWeight ≠ accum.weight
  · obtain ⟨weightdiff, diff⟩ := Int.eq_ofNat_of_zero_le (sub_nonneg.mpr wider)
    obtain ⟨ndigits, rfl⟩ := Int.eq_ofNat_of_zero_le (by omega : 0 ≤ accumNdigits)
    have moved : accumWeight = accum.weight + weightdiff := by omega
    have enough : weightdiff + accum.posDigits.length ≤ ndigits := by
      rw [NumericSumAccum.ndigits] at room
      omega
    have lead : accum.haveCarrySpace = false → 0 < weightdiff := by
      intro gone
      have more := front gone
      omega
    obtain ⟨posDigits, posRun, posLength, posHead, posBound, posValue⟩ :=
      sums.pos.copied enough lead
    obtain ⟨negDigits, negRun, negLength, negHead, negBound, negValue⟩ :=
      sums.neg.copied (sums.sameSize ▸ enough) lead
    rw [if_pos grows, diff, posRun, negRun, Option.bind_eq_bind, Option.bind_some, Option.bind_some,
      if_pos ⟨posHead, negHead⟩]
    refine ⟨_, rfl, ⟨negLength.trans posLength.symm, sums.few, ?_, ?_, ⟨fun _ => posHead, posBound⟩,
      ⟨fun _ => negHead, negBound⟩, ?_⟩, ⟨rfl, above, ?_⟩, rfl, rfl⟩
    · exact fun gone => Bool.noConfusion gone
    · intro empty
      rw [show posDigits = [] from empty] at posHead
      simp at posHead
    · dsimp only
      rw [moved, posValue, negValue, sums.value]
    · dsimp only
      rw [posLength]
      exact fits
  · obtain ⟨sized, level⟩ := not_or.mp grows
    have ndigits : accumNdigits = accum.ndigits := not_not.mp sized
    have weight : accumWeight = accum.weight := not_not.mp level
    have space : accum.haveCarrySpace = true := by
      by_contra gone
      have more := front (by simpa using gone)
      omega
    rw [if_neg grows]
    refine ⟨_, rfl, ⟨sums.sameSize, sums.few, sums.used, ?_, ⟨sums.pos.reserved, sums.pos.bound⟩,
      ⟨sums.neg.reserved, sums.neg.bound⟩, sums.value⟩, ⟨space, ?_, ?_⟩, rfl, rfl⟩
    · exact fun empty => absurd empty (sums.nonempty space)
    · exact weight ▸ above
    · rw [weight, ndigits] at fits
      exact fits

/-- A value is added exactly, and its digits overflow no digit of the buffer. -/
theorem accumSumAdd_spec {val : SignedVar} (small : ∀ digit ∈ val.digits, digit < nbase) :
    ∃ added, accumSumAdd accum val = some added ∧ Sums added (number + val.value) ∧
      added.dscale = max accum.dscale val.dscale := by
  obtain ⟨carried, carry, sumsCarried, few, sameScale⟩ :
      ∃ carried, (if accum.numUncarried = nbase - 1 then accumSumCarry accum else some accum) =
        some carried ∧ Sums carried number ∧ carried.numUncarried < nbase - 1 ∧
        carried.dscale = accum.dscale := by
    by_cases many : accum.numUncarried = nbase - 1
    · obtain ⟨carried, run, valid, absent, scale, -⟩ := accumSumCarry_spec sums
      rw [if_pos many]
      exact ⟨carried, run, valid, by rw [absent]; decide, scale⟩
    · have less := sums.few
      rw [if_neg many]
      exact ⟨accum, rfl, sums, by omega, rfl⟩
  obtain ⟨scaled, rescale, sumsScaled, fits, uncarried, scale⟩ :=
    accumSumRescale_spec sumsCarried val
  obtain ⟨i, offset⟩ := Int.eq_ofNat_of_zero_le (sub_nonneg.mpr fits.weight.le)
  have inFront : 0 < i := by
    have above := fits.weight
    omega
  have inside : i + val.digits.length ≤ scaled.posDigits.length := by
    have size := fits.size
    omega
  have place : scaled.weight - (i : Int) = val.weight := by omega
  have room : (scaled.numUncarried + 1) * (nbase - 1) + (nbase - 1) < 2 ^ 31 := by
    have base : nbase - 1 = 9999 := rfl
    rw [uncarried]
    rw [base] at few ⊢
    omega
  have more : scaled.numUncarried + 1 < nbase := by omega
  have next : (scaled.numUncarried + 1) * (nbase - 1) + (nbase - 1) =
      (scaled.numUncarried + 1 + 1) * (nbase - 1) := by ring
  have wider : (scaled.numUncarried + 1) * (nbase - 1) ≤
      (scaled.numUncarried + 1 + 1) * (nbase - 1) := by omega
  have present : scaled.haveCarrySpace ≠ false := by
    rw [fits.space]
    decide
  unfold accumSumAdd
  rw [carry, Option.bind_eq_bind, Option.bind_some, rescale, Option.bind_eq_bind, Option.bind_some,
    if_neg fun before => fits.weight.not_gt before.1, offset, Int.toNat_natCast]
  by_cases plus : val.negative = false
  · obtain ⟨posDigits, run, length, bound, value, head⟩ :=
      addDigitsAt_spec inside sumsScaled.pos.bound small room
    rw [next] at bound
    rw [if_pos plus, run, Option.bind_some]
    refine ⟨_, rfl, ⟨sumsScaled.sameSize.trans length.symm, more, fun gone => absurd gone present, ?_,
      ⟨fun space => (head inFront).trans (sumsScaled.pos.reserved space), bound⟩,
      ⟨sumsScaled.neg.reserved, fun digit member =>
        (sumsScaled.neg.bound digit member).trans wider⟩, ?_⟩, scale.trans (by rw [sameScale])⟩
    · intro empty
      rw [show posDigits = [] from empty, List.length_nil, eq_comm, List.length_eq_zero_iff] at length
      exact absurd length (sumsScaled.nonempty fits.space)
    · dsimp only
      rw [value, place, ← sumsScaled.value, SignedVar.value, plus, if_neg Bool.false_ne_true]
      ring
  · obtain ⟨negDigits, run, length, bound, value, head⟩ :=
      addDigitsAt_spec (sumsScaled.sameSize.symm ▸ inside) sumsScaled.neg.bound small room
    rw [next] at bound
    rw [if_neg plus, run, Option.bind_some]
    refine ⟨_, rfl, ⟨length.trans sumsScaled.sameSize, more, fun gone => absurd gone present,
      fun empty => absurd empty (sumsScaled.nonempty fits.space),
      ⟨sumsScaled.pos.reserved, fun digit member =>
        (sumsScaled.pos.bound digit member).trans wider⟩,
      ⟨fun space => (head inFront).trans (sumsScaled.neg.reserved space), bound⟩, ?_⟩,
      scale.trans (by rw [sameScale])⟩
    dsimp only
    rw [value, place, ← sumsScaled.value, SignedVar.value, if_pos (by simpa using plus)]
    ring

/-- The result is the number that the accumulator holds, and the accumulator still holds it. -/
theorem accumSumFinal_spec :
    ∃ carried result, accumSumFinal accum = some (carried, result) ∧ Sums carried number ∧
      result.value = number ∧ result.dscale = accum.dscale := by
  unfold accumSumFinal
  by_cases zero : accum.ndigits = 0
  · have pos : accum.posDigits = [] := List.length_eq_zero_iff.mp zero
    have neg : accum.negDigits = [] := by
      rw [← List.length_eq_zero_iff, sums.sameSize, pos, List.length_nil]
    rw [if_pos zero]
    refine ⟨accum, constZero, rfl, sums, ?_, (sums.empty pos).symm⟩
    rw [← sums.value, pos, neg, sub_self]
    rfl
  · obtain ⟨carried, run, valid, -, scale, length, small⟩ := accumSumCarry_spec sums
    have nonempty : carried.posDigits ≠ [] := by
      rw [← List.length_pos_iff, length]
      exact Nat.pos_of_ne_zero zero
    obtain ⟨sum, added, value, dscale⟩ :=
      @addVar_spec carried.weight carried.dscale _ _ valid.sameSize.symm nonempty
        (fun digit member => small digit (List.mem_append_left _ member))
        (fun digit member => small digit (List.mem_append_right _ member))
    rw [if_neg zero, run, Option.bind_eq_bind, Option.bind_some, if_pos small, added,
      Option.bind_eq_bind, Option.bind_some]
    refine ⟨_, _, rfl, valid, ?_, ?_⟩
    · rw [stripVar_value, value, valid.value]
    · rw [stripVar_dscale, dscale, scale]

end Steps

namespace NumericDatum

/-- What is not NaN, with the digits that are stored. -/
def Finite : NumericDatum → Prop
  | nan => False
  | bi _ => True
  | normal n => ∀ digit ∈ n.nData, digit < nbase

def dscale : NumericDatum → Nat
  | nan => 0
  | bi num => num.scale
  | normal n => n.dscale

end NumericDatum

theorem initVarFromNum_value (n : NumericData) : (initVarFromNum n).value = n.value := rfl

theorem accumNumeric_spec {accum : NumericSumAccum} {number : ℚ} (sums : Sums accum number)
    {newval : NumericDatum} (finite : newval.Finite) :
    ∃ added more, newval.number = some more ∧ accumNumeric accum newval = some added ∧
      Sums added (number + more) ∧ added.dscale = max accum.dscale newval.dscale := by
  cases newval with
  | nan => exact finite.elim
  | bi num =>
    obtain ⟨n, made, canonical, value, scale⟩ := makeNumericNormal_converts num
    obtain ⟨added, run, valid, dscale⟩ :=
      @accumSumAdd_spec accum number sums (initVarFromNum n) canonical.small
    refine ⟨added, num.rational, rfl, ?_, ?_, ?_⟩
    · rw [accumNumeric, NumericDatum.bitonumeric, made]
      exact run
    · rwa [← value, ← initVarFromNum_value]
    · rw [dscale]
      exact congrArg (max accum.dscale) scale
  | normal n =>
    obtain ⟨added, run, valid, dscale⟩ :=
      @accumSumAdd_spec accum number sums (initVarFromNum n) finite
    exact ⟨added, n.value, rfl, run, valid, dscale⟩

theorem accumNumerics_spec {inputs : List NumericDatum}
    (finite : ∀ newval ∈ inputs, newval.Finite) {accum : NumericSumAccum} {number : ℚ}
    (sums : Sums accum number) :
    ∃ added, inputs.foldlM accumNumeric accum = some added ∧
      Sums added (number + (inputs.filterMap NumericDatum.number).sum) ∧
      added.dscale = (inputs.map NumericDatum.dscale).foldl max accum.dscale := by
  induction inputs generalizing accum number with
  | nil => exact ⟨accum, rfl, by simpa using sums, rfl⟩
  | cons newval inputs ih =>
    obtain ⟨first, others⟩ := List.forall_mem_cons.mp finite
    obtain ⟨next, more, shown, step, valid, scale⟩ := accumNumeric_spec sums first
    obtain ⟨added, run, result, dscale⟩ := ih others valid
    refine ⟨added, ?_, ?_, ?_⟩
    · rw [List.foldlM_cons, step]
      exact run
    · rwa [List.filterMap_cons_some shown, List.sum_cons, ← add_assoc]
    · rw [dscale, scale, List.map_cons, List.foldl_cons]

/-- Whatever finite numerics are accumulated, no digit overflows its 32 bits, and the result is
their sum with the greatest display scale. -/
theorem accumSum_exact {inputs : List NumericDatum} (finite : ∀ newval ∈ inputs, newval.Finite) :
    ∃ accum carried result, inputs.foldlM accumNumeric .zero = some accum ∧
      (∀ digit ∈ accum.posDigits ++ accum.negDigits, digit < 2 ^ 31) ∧
      accumSumFinal accum = some (carried, result) ∧
      result.value = (inputs.filterMap NumericDatum.number).sum ∧
      result.dscale = (inputs.map NumericDatum.dscale).foldl max 0 := by
  obtain ⟨accum, run, sums, scale⟩ := accumNumerics_spec finite sums_zero
  obtain ⟨carried, result, final, -, value, dscale⟩ := accumSumFinal_spec sums
  refine ⟨accum, carried, result, run, ?_, final, by rw [value, zero_add], dscale.trans scale⟩
  intro digit member
  have bound := (List.mem_append.mp member).elim (sums.digit_le sums.pos digit)
    (sums.digit_le sums.neg digit)
  exact bound.trans_lt (by decide)

/-- 1.50 kept as an integer and -12.340 kept in digits. -/
theorem accumSum_exact_sample : ∃ accum carried result, [.bi (.bi64 ⟨150, 2, by decide, by decide⟩),
        .normal (shortNumeric true 3 0 [12, 3400])].foldlM accumNumeric .zero = some accum ∧
      accumSumFinal accum = some (carried, result) ∧ result.value = -10.84 ∧
      result.dscale = 3 := by
  have fits : numericCanBeShort 3 0 := by decide
  have finite : ∀ newval ∈ [.bi (.bi64 ⟨150, 2, by decide, by decide⟩),
      .normal (shortNumeric true 3 0 [12, 3400])], NumericDatum.Finite newval := by
    intro newval member
    simp only [List.mem_cons, List.not_mem_nil, or_false] at member
    obtain rfl | rfl := member
    · trivial
    · exact (by decide : ∀ digit ∈ [12, 3400], digit < nbase)
  obtain ⟨accum, carried, result, run, -, final, value, scale⟩ := accumSum_exact finite
  have negative : (shortNumeric true 3 0 [12, 3400]).value = -12.34 := by
    rw [NumericData.value, shortNumeric_negative fits, if_pos rfl, NumericData.magnitude,
      shortNumeric_weight fits]
    norm_num [shortNumeric, digitsValue, nbase]
  have positive : BiNumeric.rational (.bi64 ⟨150, 2, by decide, by decide⟩) = 1.5 := by
    rw [BiNumeric.rational, rational]
    norm_num [BiNumeric.int128GetVal, BiNumeric.scale]
  refine ⟨accum, carried, result, run, final, ?_, ?_⟩
  · rw [value]
    simp only [List.filterMap_cons, List.filterMap_nil, NumericDatum.number, List.sum_cons,
      List.sum_nil, negative, positive]
    norm_num
  · rw [scale]
    simp only [List.map_cons, List.map_nil, NumericDatum.dscale, List.foldl_cons, List.foldl_nil,
      shortNumeric_dscale fits]
    rfl

/-- Rounds of values, each ended by the final function, as for the rows of a window. -/
def accumRounds (accum : NumericSumAccum) : List (List NumericDatum) → Option (List SignedVar)
  | [] => some []
  | inputs :: rounds => do
    let (carried, result) ← accumSumFinal (← inputs.foldlM accumNumeric accum)
    (result :: ·) <$> accumRounds carried rounds

/-- A result taken between additions is the exact sum so far, and does not change the later ones. -/
theorem accumRounds_exact {rounds : List (List NumericDatum)}
    (finite : ∀ inputs ∈ rounds, ∀ newval ∈ inputs, newval.Finite) {accum : NumericSumAccum}
    {number : ℚ} (sums : Sums accum number) :
    ∃ results, accumRounds accum rounds = some results ∧ results.map SignedVar.value =
      (List.range rounds.length).map fun last =>
        number + ((rounds.take (last + 1)).flatten.filterMap NumericDatum.number).sum := by
  induction rounds generalizing accum number with
  | nil => exact ⟨[], rfl, rfl⟩
  | cons inputs rounds ih =>
    obtain ⟨first, others⟩ := List.forall_mem_cons.mp finite
    obtain ⟨added, run, valid, -⟩ := accumNumerics_spec first sums
    obtain ⟨carried, result, final, still, value, -⟩ := accumSumFinal_spec valid
    obtain ⟨results, later, values⟩ := ih others still
    refine ⟨result :: results, by simp [accumRounds, run, final, later], ?_⟩
    rw [List.map_cons, value, values, List.length_cons, List.range_succ_eq_map, List.map_cons, List.map_map]
    simp [Function.comp_def, add_assoc]

/-- `1.50` and `-0.25`, and `2.50` after their result. -/
theorem accumRounds_exact_sample : ∃ results, accumRounds .zero
      [[.bi (.bi64 ⟨150, 2, by decide, by decide⟩), .bi (.bi64 ⟨-25, 2, by decide, by decide⟩)],
        [.bi (.bi64 ⟨250, 2, by decide, by decide⟩)]] = some results ∧
    results.map SignedVar.value = [5 / 4, 15 / 4] := by
  obtain ⟨results, run, values⟩ := @accumRounds_exact
    [[.bi (.bi64 ⟨150, 2, by decide, by decide⟩), .bi (.bi64 ⟨-25, 2, by decide, by decide⟩)],
      [.bi (.bi64 ⟨250, 2, by decide, by decide⟩)]] (by simp [NumericDatum.Finite]) _ _ sums_zero
  refine ⟨results, run, values.trans ?_⟩
  simp [List.range_succ, NumericDatum.number]
  norm_num [BiNumeric.rational, rational, BiNumeric.int128GetVal, BiNumeric.scale]

end OpenGauss.BigInteger
