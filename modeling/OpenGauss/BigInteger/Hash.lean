import OpenGauss.BigInteger.SumAccum

/-! Hash values of numerics, `hash_bi` of `biginteger.cpp` and `hash_numeric`. -/

namespace OpenGauss.BigInteger

open Lib

/-- The loop that omits trailing zeros as long as the scale allows it. -/
def omitZeros : Int → Nat → Int × Nat
  | num, 0 => (num, 0)
  | num, scale + 1 => if num.tmod 10 = 0 then omitZeros (num.tdiv 10) scale else (num, scale + 1)

def int128Int64Eq (data : Int) : Bool := data = (BitVec.ofInt 64 data).toInt

/-- A product added to a term, `none` where the builtins see an overflow. -/
def mulAdd (data factor term : Int) : Option Int := do
  let product ← signed 128 (data * factor)
  signed 128 (term + product)

/-- The loop of step 2. With weights below 10 the table has all places. -/
def addPlaces (negative : Bool) : Int → Int → List Nat → Option Int
  | data, _, [] => some data
  | data, weight, digit :: digits => do
      let place := getScaleMultiplier (weight.toNat * decDigits)
      let sum ← mulAdd (withSign negative digit) place data
      addPlaces negative sum (weight - 1) digits

/-- The loop of step 4. -/
def appendDigits (negative : Bool) : Int → List Nat → Option Int
  | data, [] => some data
  | data, digit :: digits => do
      let sum ← mulAdd data nbase (withSign negative digit)
      appendDigits negative sum digits

/-- Step 3: the last digit without its zeros, its base, and how many zeros there were. -/
def lastDigitBase (digit : Nat) : Nat × Nat × Nat :=
  if digit % 1000 = 0 then (digit / 1000, nbase / 1000, 3)
  else if digit % 100 = 0 then (digit / 100, nbase / 100, 2)
  else if digit % 10 = 0 then (digit / 10, nbase / 10, 1)
  else (digit, nbase, 0)

/-- `CAN_CONVERT_BI128` of the decimal digits. -/
def canConvertBi128 (n : NumericData) : Prop :=
  0 ≤ n.weight ∧ n.weight * decDigits + decDigits + n.dscale ≤ maxInt128Digit ∨
    n.weight < 0 ∧ n.dscale ≤ maxInt128Digit

instance (n : NumericData) : Decidable (canConvertBi128 n) := inferInstanceAs (Decidable (_ ∨ _))

section Hashes

variable (hashUint32 : BitVec 32 → BitVec 32) (hashAny : List Nat → BitVec 32)

def int64HashBi (num : Int) (scale : Nat) : BitVec 32 :=
  if num = 0 then hashUint32 0 ^^^ 0
  else
    let (num, scale) := omitZeros num scale
    let lohalf := BitVec.ofInt 32 num
    let hihalf := (BitVec.ofInt 64 num >>> 32).setWidth 32
    hashUint32 (lohalf ^^^ if 0 ≤ num then hihalf else ~~~hihalf) ^^^ BitVec.ofNat 32 scale

def int128HashBi (num : Int) (scale : Nat) : BitVec 32 :=
  if num = 0 then hashUint32 0 ^^^ 0
  else
    let (num, scale) := omitZeros num scale
    if int128Int64Eq num then int64HashBi hashUint32 num scale
    else
      let hihalf64 := (BitVec.ofInt 128 num >>> 64).setWidth 64
      let lohalf64 := BitVec.ofInt 64 num ^^^ if 0 ≤ num then hihalf64 else ~~~hihalf64
      let hihalf32 := (lohalf64 >>> 32).setWidth 32
      hashUint32 (lohalf64.setWidth 32 ^^^ if 0 ≤ num then hihalf32 else ~~~hihalf32) ^^^
        BitVec.ofNat 32 scale

/-- Digits without zeros on both sides and the weight, `none` where there is no digit left. -/
def hashNumeric (n : NumericData) : Option (BitVec 32) :=
  let (weight, digits) := stripLeading n.weight n.nData
  if digits = [] then some (BitVec.ofInt 32 (-1))
  else
    let digits := digits.rdropWhile (· == 0)
    if digits = [] then none else some (hashAny digits ^^^ BitVec.ofInt 32 weight)

/-- The hash value of an integer, `other` where it overflowed. -/
def hashUnlessOverflow (scale : Nat) (other : Option (BitVec 32)) : Option Int → Option (BitVec 32)
  | some data => some (int128HashBi hashUint32 data scale)
  | none => other

def numericHashBi (n : NumericData) : Option (BitVec 32) :=
  match n.nData.getLast? with
  | none => some (hashUint32 0 ^^^ 0)
  | some last =>
    if 10 ≤ n.weight then hashNumeric hashAny n
    else if canConvertBi128 n then do
      let data ← convertShortNumericToInt128Byscale n n.dscale
      some (int128HashBi hashUint32 data n.dscale)
    else if 0 ≤ n.weight ∧ (n.nData.length : Int) ≤ n.weight + 1 then
      hashUnlessOverflow hashUint32 0 (hashNumeric hashAny n) (addPlaces n.negative 0 n.weight n.nData)
    else
      let (lastDigit, lastBase, zeros) := lastDigitBase last
      let dscale := ((n.nData.length : Int) - n.weight - 1) * decDigits - zeros
      -- Some digit stands behind the decimal point, so the scale is not negative.
      hashUnlessOverflow hashUint32 dscale.toNat (hashNumeric hashAny n) do
        let data ← appendDigits n.negative 0 n.nData.dropLast
        mulAdd data lastBase (withSign n.negative lastDigit)

def hashBi : NumericDatum → Option (BitVec 32)
  | .nan => some 0
  | .bi (.bi64 num) => some (int64HashBi hashUint32 num.value num.scale)
  | .bi (.bi128 num) => some (int128HashBi hashUint32 num.value num.scale)
  | .normal n => numericHashBi hashUint32 hashAny n

end Hashes

/-- The integer at the least scale at which the number is one. -/
structure Trimmed (number : ℚ) (num : Int) (scale : Nat) : Prop where
  value : rational num scale = number
  least : scale = 0 ∨ ¬ (10 : Int) ∣ num

theorem omitZeros_spec (num : Int) (scale : Nat) :
    Trimmed (rational num scale) (omitZeros num scale).1 (omitZeros num scale).2 := by
  induction scale generalizing num with
  | zero => exact ⟨rfl, .inl rfl⟩
  | succ scale ih =>
    rw [omitZeros]
    split_ifs with zero
    · obtain ⟨rest, rfl⟩ := Int.dvd_of_tmod_eq_zero zero
      have quotient : (10 * rest).tdiv 10 = rest := Int.mul_tdiv_cancel_left _ (by decide)
      have same : rational (10 * rest) (scale + 1) = rational rest scale := by
        rw [rational, rational, pow_succ, mul_comm ((10 : ℚ) ^ scale), Int.cast_mul]
        exact mul_div_mul_left _ _ (by norm_num)
      rw [quotient, same]
      exact ih rest
    · exact ⟨rfl, .inr fun tens => zero (Int.tmod_eq_zero_of_dvd tens)⟩

variable {number : ℚ} {num : Int} {scale : Nat}

theorem Trimmed.scale_le {num other : Int} {scale wide : Nat} (trimmed : Trimmed number num scale)
    (value : rational other wide = number) :
    scale ≤ wide ∧ other = num * 10 ^ (wide - scale) := by
  have level : ∀ {left right : Int} {fine coarse : Nat}, coarse ≤ fine →
      rational left fine = rational right coarse → left = right * 10 ^ (fine - coarse) := by
    intro left right fine coarse finer same
    rw [← rational_scaled finer] at same
    exact (rational_strictMono fine).injective same
  have same : rational other wide = rational num scale := value.trans trimmed.value.symm
  by_cases finer : scale ≤ wide
  · exact ⟨finer, level finer same⟩
  · have multiple := level (not_le.mp finer).le same.symm
    obtain ⟨more, places⟩ := Nat.exists_eq_add_of_lt (not_le.mp finer)
    obtain absent | whole := trimmed.least
    · omega
    · refine absurd ?_ whole
      rw [multiple, places, show wide + more + 1 - wide = more + 1 by omega, pow_succ, ← mul_assoc]
      exact Dvd.intro_left _ rfl

theorem Trimmed.unique {num other : Int} {scale wide : Nat} (trimmed : Trimmed number num scale)
    (others : Trimmed number other wide) :
    num = other ∧ scale = wide := by
  obtain ⟨finer, multiple⟩ := trimmed.scale_le others.value
  obtain ⟨coarser, -⟩ := others.scale_le trimmed.value
  obtain rfl := le_antisymm finer coarser
  rw [Nat.sub_self, pow_zero, mul_one] at multiple
  exact ⟨multiple.symm, rfl⟩

theorem inSigned_of_mul_pow_ten {bits places : Nat} (inside : InSigned bits (num * 10 ^ places)) :
    InSigned bits num := by
  have power : (1 : Int) ≤ 10 ^ places := one_le_pow₀ (by decide)
  obtain ⟨low, high⟩ := inside
  have positive : (0 : Int) < 2 ^ (bits - 1) := by positivity
  constructor
  · by_cases nonneg : 0 ≤ num
    · omega
    · nlinarith
  · by_cases negative : num < 0
    · omega
    · nlinarith

/-- The integer of a type that the number is, at some scale. -/
def Holds (bits : Nat) (number : ℚ) : Prop :=
  ∃ data scale, InSigned bits data ∧ rational data scale = number

theorem Trimmed.inSigned {bits : Nat} (trimmed : Trimmed number num scale)
    (holds : Holds bits number) : InSigned bits num := by
  obtain ⟨data, wide, inside, value⟩ := holds
  obtain ⟨-, multiple⟩ := trimmed.scale_le value
  rw [multiple] at inside
  exact inSigned_of_mul_pow_ten inside

theorem rational_eq_zero : rational num scale = 0 ↔ num = 0 := by
  rw [rational, div_eq_zero_iff]
  have power : (10 : ℚ) ^ scale ≠ 0 := by positivity
  simp [power]

theorem Trimmed.omitZeros (trimmed : Trimmed number num scale) : omitZeros num scale = (num, scale) := by
  have spec := omitZeros_spec num scale
  rw [trimmed.value] at spec
  obtain ⟨same, level⟩ := spec.unique trimmed
  exact Prod.ext same level

section Hashes

variable (hashUint32 : BitVec 32 → BitVec 32)

theorem int128HashBi_congr {num other : Int} {scale wide : Nat}
    (same : rational num scale = rational other wide) :
    int128HashBi hashUint32 num scale = int128HashBi hashUint32 other wide := by
  by_cases zero : num = 0
  · rw [zero, rational_eq_zero.mpr rfl, eq_comm, rational_eq_zero] at same
    rw [int128HashBi, int128HashBi, if_pos zero, if_pos same]
  · have nonzero : other ≠ 0 := by
      intro absent
      rw [absent, rational_eq_zero.mpr rfl] at same
      exact zero (rational_eq_zero.mp same)
    have first := omitZeros_spec num scale
    rw [same] at first
    obtain ⟨nums, scales⟩ := first.unique (omitZeros_spec other wide)
    rw [int128HashBi, int128HashBi, if_neg zero, if_neg nonzero, Prod.ext nums scales]

theorem int128Int64Eq_iff (data : Int) : int128Int64Eq data = true ↔ InSigned 64 data := by
  rw [int128Int64Eq, decide_eq_true_iff, BitVec.toInt_ofInt]
  constructor
  · intro same
    have low := @Int.le_bmod data (2 ^ 64) (by decide)
    have high := @Int.bmod_lt data (2 ^ 64) (by decide)
    rw [← same] at low high
    norm_num at low high
    exact ⟨by norm_num; omega, by norm_num; omega⟩
  · rintro ⟨low, high⟩
    norm_num at low high
    exact (Int.bmod_eq_of_le (by norm_num; omega) (by norm_num; omega)).symm

/-- Both sizes hash an integer of 64 bits alike. -/
theorem int64HashBi_eq {num : Int} (inside : InSigned 64 num) (scale : Nat) :
    int64HashBi hashUint32 num scale = int128HashBi hashUint32 num scale := by
  by_cases zero : num = 0
  · rw [int64HashBi, int128HashBi, if_pos zero, if_pos zero]
  · have trimmed := omitZeros_spec num scale
    have narrow := trimmed.inSigned ⟨num, scale, inside, rfl⟩
    have nonzero : (omitZeros num scale).1 ≠ 0 := by
      intro absent
      have value := trimmed.value
      rw [absent, rational_eq_zero.mpr rfl, eq_comm, rational_eq_zero] at value
      exact zero value
    have again := trimmed.omitZeros
    rw [int128HashBi, if_neg zero]
    dsimp only
    rw [if_pos ((int128Int64Eq_iff _).mpr narrow), int64HashBi, int64HashBi, if_neg zero,
      if_neg nonzero, again]

end Hashes

theorem mulAdd_eq_some {data factor term sum : Int} (added : mulAdd data factor term = some sum) :
    InSigned 128 sum ∧ sum = term + data * factor := by
  unfold mulAdd at added
  by_cases product : InSigned 128 (data * factor)
  · rw [signed_of_in product, Option.bind_eq_bind, Option.bind_some, signed] at added
    split_ifs at added with inside
    obtain rfl := Option.some.inj added
    exact ⟨inside, rfl⟩
  · rw [signed_of_not_in product] at added
    simp at added

theorem mulAdd_of_in {data factor term : Int} (product : InSigned 128 (data * factor))
    (sum : InSigned 128 (term + data * factor)) :
    mulAdd data factor term = some (term + data * factor) := by
  rw [mulAdd, signed_of_in product, Option.bind_eq_bind, Option.bind_some, signed_of_in sum]

theorem withSign_add (negative : Bool) (first second : Nat) :
    withSign negative first + withSign negative second = withSign negative (first + second) := by
  cases negative
  · simp [withSign]
  · simp [withSign]
    ring

theorem withSign_mul (negative : Bool) (first second : Nat) :
    withSign negative first * (second : Int) = withSign negative (first * second) := by
  cases negative <;> simp [withSign]

variable {negative : Bool} {digits : List Nat} {data : Nat}

theorem inSigned_withSign_le {bits small large : Nat} (inside : InSigned bits (withSign negative large))
    (less : small ≤ large) :
    InSigned bits (withSign negative small) := by
  have positive : (0 : Int) < 2 ^ (bits - 1) := by positivity
  obtain ⟨low, high⟩ := inside
  cases negative
  · simp only [withSign, Bool.false_eq_true, if_false] at *
    exact ⟨by omega, by omega⟩
  · simp only [withSign, if_true] at *
    exact ⟨by omega, by omega⟩

/-- Both loops get the integer of the digits, as far as it is one of 128 bits. -/
theorem mulAdd_withSign {factor : Nat} {data term : Nat}
    (inside : InSigned 128 (withSign negative (term + data * factor))) :
    mulAdd (withSign negative data) factor (withSign negative term) =
      some (withSign negative (term + data * factor)) := by
  have sum : withSign negative term + withSign negative data * (factor : Int) =
      withSign negative (term + data * factor) := by rw [withSign_mul, withSign_add]
  rw [← sum]
  refine mulAdd_of_in ?_ (sum ▸ inside)
  rw [withSign_mul]
  exact inSigned_withSign_le inside (Nat.le_add_left _ _)

theorem appendDigits_eq
    (inside : InSigned 128 (withSign negative (data * nbase ^ digits.length + digitsNat digits))) :
    appendDigits negative (withSign negative data) digits =
      some (withSign negative (data * nbase ^ digits.length + digitsNat digits)) := by
  induction digits generalizing data with
  | nil => simp [appendDigits, digitsNat]
  | cons digit digits ih =>
    have total : data * nbase ^ (digit :: digits).length + digitsNat (digit :: digits) =
        (digit + data * nbase) * nbase ^ digits.length + digitsNat digits := by
      rw [digitsNat_cons, List.length_cons, pow_succ]
      ring
    rw [total] at inside ⊢
    have power : 0 < nbase ^ digits.length := Nat.pow_pos (by decide)
    have step : digit + data * nbase ≤ (digit + data * nbase) * nbase ^ digits.length + digitsNat digits :=
      (Nat.le_mul_of_pos_right _ power).trans (Nat.le_add_right _ _)
    rw [appendDigits, mulAdd_withSign (inSigned_withSign_le inside step), Option.bind_eq_bind,
      Option.bind_some]
    exact ih inside

theorem appendDigits_sound {result : Int}
    (appended : appendDigits negative (withSign negative data) digits = some result) :
    result = withSign negative (data * nbase ^ digits.length + digitsNat digits) := by
  induction digits generalizing data with
  | nil => simpa [appendDigits, digitsNat, eq_comm] using appended
  | cons digit digits ih =>
    rw [appendDigits] at appended
    obtain ⟨sum, step, rest⟩ := Option.bind_eq_some_iff.mp appended
    obtain ⟨-, rfl⟩ := mulAdd_eq_some step
    rw [withSign_mul, withSign_add] at rest
    rw [ih rest, digitsNat_cons, List.length_cons, pow_succ]
    congr 1
    ring

/-- The number of digits that all stand before the decimal point. -/
def placesNat (weight : Int) (digits : List Nat) : Nat :=
  digitsNat digits * nbase ^ (weight + 1 - digits.length).toNat

section Places

variable {weight : Int} {digits : List Nat}

theorem placesNat_cons {digit : Nat} (whole : ((digit :: digits).length : Int) ≤ weight + 1) :
    placesNat weight (digit :: digits) = digit * nbase ^ weight.toNat + placesNat (weight - 1) digits := by
  rw [List.length_cons] at whole
  have places : weight.toNat = digits.length + (weight - digits.length).toNat := by omega
  have rest : weight + 1 - ((digit :: digits).length : Int) = weight - digits.length := by
    rw [List.length_cons]
    omega
  have shift : weight - 1 + 1 - (digits.length : Int) = weight - digits.length := by omega
  rw [placesNat, placesNat, rest, shift, digitsNat_cons, places, pow_add]
  ring

theorem digitsValue_placesNat (whole : (digits.length : Int) ≤ weight + 1) :
    digitsValue weight digits = placesNat weight digits := by
  obtain ⟨places, exponent⟩ := Int.eq_ofNat_of_zero_le (sub_nonneg.mpr whole)
  rw [digitsValue_eq, placesNat, exponent, zpow_natCast, Int.toNat_natCast]
  push_cast
  rfl

theorem getScaleMultiplier_places (places : Nat) :
    getScaleMultiplier (places * decDigits) = ((nbase ^ places : Nat) : Int) := by
  rw [getScaleMultiplier, nbase_eq, ← pow_mul, Nat.mul_comm]
  push_cast
  rfl

theorem addPlaces_eq {negative : Bool} {data : Nat} (whole : (digits.length : Int) ≤ weight + 1)
    (inside : InSigned 128 (withSign negative (data + placesNat weight digits))) :
    addPlaces negative (withSign negative data) weight digits =
      some (withSign negative (data + placesNat weight digits)) := by
  induction digits generalizing weight data with
  | nil => simp [addPlaces, placesNat, digitsNat]
  | cons digit digits ih =>
    rw [placesNat_cons whole, ← Nat.add_assoc] at inside ⊢
    rw [addPlaces, getScaleMultiplier_places,
      mulAdd_withSign (inSigned_withSign_le inside (Nat.le_add_right _ _)), Option.bind_eq_bind,
      Option.bind_some]
    rw [List.length_cons] at whole
    exact ih (by omega) inside

theorem addPlaces_sound {negative : Bool} {data : Nat} {result : Int}
    (whole : (digits.length : Int) ≤ weight + 1) (start : InSigned 128 (withSign negative data))
    (added : addPlaces negative (withSign negative data) weight digits = some result) :
    InSigned 128 result ∧ result = withSign negative (data + placesNat weight digits) := by
  induction digits generalizing weight data with
  | nil =>
    obtain rfl : withSign negative data = result := by simpa [addPlaces] using added
    exact ⟨start, by simp [placesNat, digitsNat]⟩
  | cons digit digits ih =>
    rw [addPlaces, getScaleMultiplier_places] at added
    obtain ⟨sum, step, rest⟩ := Option.bind_eq_some_iff.mp added
    obtain ⟨inside, rfl⟩ := mulAdd_eq_some step
    rw [withSign_mul, withSign_add] at rest inside
    rw [placesNat_cons whole, ← Nat.add_assoc]
    rw [List.length_cons] at whole
    exact ih (by omega) inside rest

end Places

theorem lastDigitBase_spec {digit : Nat} (small : digit < nbase) (nonzero : digit ≠ 0) :
    ∃ lastDigit lastBase zeros, lastDigitBase digit = (lastDigit, lastBase, zeros) ∧
      digit = lastDigit * 10 ^ zeros ∧ lastBase * 10 ^ zeros = nbase ∧ 10 ∣ lastBase ∧
      ¬ 10 ∣ lastDigit ∧ zeros ≤ 3 := by
  rw [nbase] at small
  unfold lastDigitBase
  split_ifs with three two one
  · exact ⟨_, _, _, rfl, by omega, by decide, by decide, by omega, by decide⟩
  · exact ⟨_, _, _, rfl, by omega, by decide, by decide, by omega, by decide⟩
  · exact ⟨_, _, _, rfl, by omega, by decide, by decide, by omega, by decide⟩
  · exact ⟨_, _, _, rfl, by omega, by decide, by decide, by omega, by decide⟩

theorem abs_value (n : NumericData) : |n.value| = n.magnitude := by
  have nonneg : 0 ≤ n.magnitude := digitsValue_nonneg _ _
  rw [NumericData.value]
  split_ifs
  · rw [abs_neg, abs_of_nonneg nonneg]
  · exact abs_of_nonneg nonneg

theorem not_holds_of_weight {n : NumericData} (canonical : n.Canonical) (nonempty : n.nData ≠ [])
    (heavy : 10 ≤ n.weight) : ¬ Holds 128 n.value := by
  rintro ⟨data, scale, inside, value⟩
  obtain ⟨first, rest, digits, nonzero⟩ := canonical.exists_first nonempty
  have one : (1 : ℚ) ≤ first := by exact_mod_cast Nat.pos_of_ne_zero nonzero
  have places : (nbase : ℚ) ^ (10 : Int) ≤ (nbase : ℚ) ^ n.weight :=
    zpow_le_zpow_right₀ (by norm_num [nbase]) heavy
  have large : (nbase : ℚ) ^ (10 : Int) ≤ n.magnitude := by
    rw [NumericData.magnitude, digits, digitsValue]
    calc (nbase : ℚ) ^ (10 : Int) ≤ (nbase : ℚ) ^ n.weight := places
      _ ≤ first * (nbase : ℚ) ^ n.weight := le_mul_of_one_le_left (zpow_nonneg (by norm_num) _) one
      _ ≤ first * (nbase : ℚ) ^ n.weight + digitsValue (n.weight - 1) rest :=
          le_add_of_nonneg_right (digitsValue_nonneg _ _)
  have bound : |(data : ℚ)| ≤ 2 ^ 127 := by exact_mod_cast abs_le_of_inSigned inside
  have scaled : |rational data scale| ≤ |(data : ℚ)| := by
    rw [rational, abs_div]
    refine div_le_self (abs_nonneg _) ?_
    rw [abs_of_nonneg (by positivity)]
    exact one_le_pow₀ (by norm_num)
  rw [value, abs_value] at scaled
  have all := large.trans (scaled.trans bound)
  norm_num [nbase] at all

/-- What the loops of the digits are to give: the hash value of the integer where there is one,
the one of the digits elsewhere. -/
def HashesAs (hashUint32 : BitVec 32 → BitVec 32) (number : ℚ) (hash other : Option (BitVec 32)) : Prop :=
  (Holds 128 number → ∃ data scale, rational data scale = number ∧
    hash = some (int128HashBi hashUint32 data scale)) ∧ (¬ Holds 128 number → hash = other)

theorem hashesAs_trimmed {hashUint32 : BitVec 32 → BitVec 32} {number : ℚ}
    {other : Option (BitVec 32)} {result : Option Int} {num : Int} {scale : Nat}
    (trimmed : Trimmed number num scale) (complete : InSigned 128 num → result = some num)
    (sound : ∀ data, result = some data → InSigned 128 data ∧ data = num) :
    HashesAs hashUint32 number (hashUnlessOverflow hashUint32 scale other result) other := by
  refine ⟨fun holds => ⟨num, scale, trimmed.value, ?_⟩, fun wide => ?_⟩
  · rw [complete (trimmed.inSigned holds), hashUnlessOverflow]
  · cases found : result with
    | none => rfl
    | some data =>
      obtain ⟨inside, rfl⟩ := sound data found
      exact absurd ⟨data, scale, inside, trimmed.value⟩ wide

section Canonical

variable (hashUint32 : BitVec 32 → BitVec 32) (hashAny : List Nat → BitVec 32)
variable {n : NumericData} (canonical : n.Canonical)
include canonical

theorem getWholeScale_le (few : canConvertBi128 n) : getWholeScale n ≤ maxInt128Digit := by
  simp only [canConvertBi128, decDigits, maxInt128Digit] at few
  simp only [getWholeScale, decDigits, maxInt128Digit]
  cases digits : n.nData with
  | nil =>
    have zero := (canonical.zero digits).1
    dsimp only
    omega
  | cons firstDigit rest =>
    have most : decimalDigits firstDigit ≤ 4 := by
      unfold decimalDigits
      split_ifs <;> decide
    dsimp only
    split_ifs <;> omega

omit canonical in
theorem trimmed_places (whole : (n.nData.length : Int) ≤ n.weight + 1) :
    Trimmed n.value (withSign n.negative (placesNat n.weight n.nData)) 0 := by
  refine ⟨NumericData.rational_withSign ?_, .inl rfl⟩
  rw [NumericData.magnitude, digitsValue_placesNat whole, pow_zero, div_one]

omit canonical in
/-- The digits with the last one trimmed, at the decimal places that these are. -/
theorem trimmed_fraction {front : List Nat} {last lastDigit lastBase zeros : Nat}
    (split : n.nData = front ++ [last]) (digit : last = lastDigit * 10 ^ zeros)
    (base : lastBase * 10 ^ zeros = nbase) (tens : 10 ∣ lastBase) (rest : ¬ 10 ∣ lastDigit)
    (few : zeros ≤ 3) (fraction : n.weight + 1 < n.nData.length) :
    Trimmed n.value (withSign n.negative (lastDigit + digitsNat front * lastBase))
      (((n.nData.length : Int) - n.weight - 1) * decDigits - zeros).toNat := by
  obtain ⟨places, exponent⟩ :=
    Int.eq_ofNat_of_zero_le (by omega : 0 ≤ (n.nData.length : Int) - n.weight - 1)
  have enough : zeros ≤ places * decDigits := by
    rw [decDigits]
    omega
  have scale : (((n.nData.length : Int) - n.weight - 1) * decDigits - zeros).toNat =
      places * decDigits - zeros := by
    rw [exponent]
    omega
  have whole : digitsNat n.nData = (lastDigit + digitsNat front * lastBase) * 10 ^ zeros := by
    rw [split, digitsNat_append, digitsNat_singleton, List.length_singleton, pow_one, ← base, digit]
    ring
  constructor
  · apply NumericData.rational_withSign
    have power : n.weight + 1 - (n.nData.length : Int) = -(places : Int) := by omega
    rw [NumericData.magnitude, digitsValue_eq, power, zpow_neg, zpow_natCast, nbase_eq, scale,
      ← div_eq_mul_inv, whole, div_eq_div_iff (by positivity) (by positivity)]
    push_cast
    rw [← pow_mul, Nat.mul_comm decDigits, mul_assoc, ← pow_add, Nat.add_sub_cancel' enough]
  · right
    intro multiple
    have natural := Int.natAbs_dvd_natAbs.mpr multiple
    rw [natAbs_withSign] at natural
    exact rest ((Nat.dvd_add_left (Dvd.dvd.mul_left tens _)).mp natural)

/-- The digits hash as the integer does wherever there is one. -/
theorem numericHashBi_spec :
    HashesAs hashUint32 n.value (numericHashBi hashUint32 hashAny n) (hashNumeric hashAny n) := by
  have start : (0 : Int) = withSign n.negative 0 := by cases n.negative <;> rfl
  unfold numericHashBi
  obtain nonempty | ⟨front, last, concat⟩ := List.eq_nil_or_concat n.nData
  · have zero := NumericData.value_of_nil nonempty
    have holds : Holds 128 n.value := ⟨0, 0, by decide, by rw [zero, rational_eq_zero]⟩
    rw [nonempty]
    exact ⟨fun _ => ⟨0, 0, by rw [zero, rational_eq_zero], rfl⟩, fun wide => absurd holds wide⟩
  · have split : n.nData = front ++ [last] := by rw [concat, List.concat_eq_append]
    have nonempty : n.nData ≠ [] := by simp [split]
    have lastEq : n.nData.getLast? = some last := by simp [split]
    rw [lastEq]
    dsimp only
    split_ifs with heavy few whole
    · have wide := not_holds_of_weight canonical nonempty heavy
      exact ⟨fun holds => absurd holds wide, fun _ => rfl⟩
    · obtain ⟨data, shown⟩ := canonical.displayed
      have admitted := getWholeScale_le canonical few
      have below := data_lt canonical shown admitted
      have inside := @inSigned_withSign 128 data (below.trans (by decide)) n.negative
      have value := NumericData.rational_withSign shown
      rw [int128_of_digits canonical shown admitted, Option.bind_eq_bind, Option.bind_some]
      exact ⟨fun _ => ⟨_, _, value, rfl⟩, fun wide => absurd ⟨_, _, inside, value⟩ wide⟩
    · refine hashesAs_trimmed (trimmed_places whole.2) ?_ ?_
      · intro inside
        rw [← Nat.zero_add (placesNat n.weight n.nData)] at inside ⊢
        rw [start]
        exact addPlaces_eq whole.2 inside
      · intro data added
        rw [start] at added
        have zero : InSigned 128 (withSign n.negative 0) := by rw [← start]; decide
        simpa using addPlaces_sound whole.2 zero added
    · have fraction : n.weight + 1 < n.nData.length := by
        by_contra integer
        have pos := List.length_pos_of_ne_nil nonempty
        exact whole ⟨by omega, by omega⟩
      have nonzero : last ≠ 0 := fun zero => canonical.trailing (by rw [lastEq, zero])
      obtain ⟨lastDigit, lastBase, zeros, parts, digit, base, tens, rest, least⟩ :=
        lastDigitBase_spec (canonical.small last (by simp [split])) nonzero
      have dropLast : n.nData.dropLast = front := by simp [split]
      rw [parts, dropLast]
      dsimp only
      refine hashesAs_trimmed (trimmed_fraction split digit base tens rest least fraction) ?_ ?_
      · intro inside
        have positive : 0 < lastBase := Nat.pos_of_ne_zero fun zero => by
          rw [zero, Nat.zero_mul] at base
          exact absurd base (by decide)
        have prefixIn : InSigned 128 (withSign n.negative (0 * nbase ^ front.length + digitsNat front)) := by
          rw [Nat.zero_mul, Nat.zero_add]
          exact inSigned_withSign_le inside
            ((Nat.le_mul_of_pos_right _ positive).trans (Nat.le_add_left _ _))
        rw [start, appendDigits_eq prefixIn, Option.bind_eq_bind, Option.bind_some, Nat.zero_mul,
          Nat.zero_add]
        exact mulAdd_withSign inside
      · intro data added
        obtain ⟨sum, appended, step⟩ := Option.bind_eq_some_iff.mp added
        rw [start] at appended
        have total := appendDigits_sound appended
        rw [Nat.zero_mul, Nat.zero_add] at total
        obtain ⟨inside, result⟩ := mulAdd_eq_some step
        rw [total, withSign_mul, withSign_add] at result
        exact ⟨inside, result⟩

end Canonical

section Unique

variable {weight : Int} {digits others : List Nat}

theorem length_le_of_trailing (small : ∀ digit ∈ others, digit < nbase) (trailing : others.getLast? ≠ some 0)
    (same : digitsValue weight digits = digitsValue weight others) :
    others.length ≤ digits.length := by
  by_contra longer
  obtain ⟨more, length⟩ := Nat.exists_eq_add_of_lt (not_le.mp longer)
  have nonempty : others ≠ [] := by
    rw [← List.length_pos_iff]
    omega
  have base : (nbase : ℚ) ≠ 0 := by norm_num [nbase]
  have places : weight + 1 - (digits.length : Int) =
      ((more + 1 : Nat) : Int) + (weight + 1 - others.length) := by omega
  rw [digitsValue_eq, digitsValue_eq, places, zpow_add₀ base, zpow_natCast, ← mul_assoc] at same
  have scaled := mul_right_cancel₀ (zpow_ne_zero _ base) same
  have natural : digitsNat digits * nbase ^ (more + 1) = digitsNat others := by
    exact_mod_cast scaled
  refine not_dvd_digitsNat small nonempty trailing ?_
  rw [← natural, pow_succ, ← Nat.mul_assoc]
  exact Dvd.intro_left _ rfl

theorem digits_unique (small : ∀ digit ∈ digits, digit < nbase)
    (otherSmall : ∀ digit ∈ others, digit < nbase) (trailing : digits.getLast? ≠ some 0)
    (otherTrailing : others.getLast? ≠ some 0)
    (same : digitsValue weight digits = digitsValue weight others) : digits = others := by
  have length := le_antisymm (length_le_of_trailing small trailing same.symm)
    (length_le_of_trailing otherSmall otherTrailing same)
  refine digitsNat_unique length small otherSmall ?_
  have base : (nbase : ℚ) ≠ 0 := by norm_num [nbase]
  rw [digitsValue_eq, digitsValue_eq, length] at same
  exact_mod_cast mul_right_cancel₀ (zpow_ne_zero _ base) same

end Unique

theorem firstDigit_weight {n : NumericData} (canonical : n.Canonical) (nonempty : n.nData ≠ []) :
    (NumericVar.firstDigit n.weight n.nData).1 = n.weight := by
  obtain ⟨first, rest, digits, nonzero⟩ := canonical.exists_first nonempty
  rw [digits, NumericVar.firstDigit, if_pos nonzero]

/-- One number has the same digits and the same weight in all canonical numerics. -/
theorem canonical_unique {n other : NumericData} (canonical : n.Canonical)
    (otherCanonical : other.Canonical) (nonempty : n.nData ≠ []) (otherNonempty : other.nData ≠ [])
    (same : n.value = other.value) : n.weight = other.weight ∧ n.nData = other.nData := by
  have magnitude : n.magnitude = other.magnitude := by rw [← abs_value, ← abs_value, same]
  have leading := @leadingDigit_firstDigit n.weight n.nData canonical.small
  have otherLeading := @leadingDigit_firstDigit other.weight other.nData otherCanonical.small
  rw [NumericData.magnitude, NumericData.magnitude] at magnitude
  rw [magnitude] at leading
  have weight := (leading.unique otherLeading).1
  rw [firstDigit_weight canonical nonempty, firstDigit_weight otherCanonical otherNonempty] at weight
  rw [weight] at magnitude
  exact ⟨weight, digits_unique canonical.small otherCanonical.small canonical.trailing
    otherCanonical.trailing magnitude⟩

theorem hashNumeric_some (hashAny : List Nat → BitVec 32) {n : NumericData}
    (canonical : n.Canonical) (nonempty : n.nData ≠ []) :
    ∃ hash, hashNumeric hashAny n = some hash := by
  obtain ⟨first, rest, digits, nonzero⟩ := canonical.exists_first nonempty
  have last : (first :: rest).rdropWhile (· == 0) = first :: rest := by
    rw [List.rdropWhile_eq_self_iff]
    intro present
    have trailing := canonical.trailing
    rw [digits, List.getLast?_eq_getLast_of_ne_nil present] at trailing
    simpa using trailing
  unfold hashNumeric
  rw [digits, stripLeading, if_neg nonzero]
  dsimp only
  rw [if_neg (List.cons_ne_nil _ _), last, if_neg (List.cons_ne_nil _ _)]
  exact ⟨_, rfl⟩

section Hashes

variable (hashUint32 : BitVec 32 → BitVec 32) (hashAny : List Nat → BitVec 32)

theorem hashBi_holds {key : NumericDatum} {number : ℚ} (is : key.Is number) (holds : Holds 128 number) :
    ∃ data scale, rational data scale = number ∧
      hashBi hashUint32 hashAny key = some (int128HashBi hashUint32 data scale) := by
  obtain ⟨canonical, value⟩ := is
  cases key with
  | nan => simp [NumericDatum.number] at value
  | bi num =>
    refine ⟨num.int128GetVal, num.scale, Option.some.inj value, ?_⟩
    cases num with
    | bi64 num => exact congrArg some (int64HashBi_eq hashUint32 num.inRange num.scale)
    | bi128 num => rfl
  | normal n =>
    obtain rfl : n.value = number := Option.some.inj value
    exact (numericHashBi_spec hashUint32 hashAny canonical).1 holds

theorem hashBi_wide {key : NumericDatum} {number : ℚ} (is : key.Is number) (wide : ¬ Holds 128 number) :
    ∃ n : NumericData, n.Canonical ∧ n.nData ≠ [] ∧ n.value = number ∧
      hashBi hashUint32 hashAny key = hashNumeric hashAny n := by
  obtain ⟨canonical, value⟩ := is
  cases key with
  | nan => simp [NumericDatum.number] at value
  | bi num =>
    have inside : InSigned 128 num.int128GetVal := by
      cases num with
      | bi64 num => exact num.inRange.widen (by decide)
      | bi128 num => exact num.inRange
    exact absurd ⟨_, _, inside, Option.some.inj value⟩ wide
  | normal n =>
    obtain rfl : n.value = number := Option.some.inj value
    refine ⟨n, canonical, ?_, rfl, (numericHashBi_spec hashUint32 hashAny canonical).2 wide⟩
    intro empty
    have zero := NumericData.value_of_nil empty
    exact wide ⟨0, 0, by decide, by rw [zero, rational_eq_zero]⟩

end Hashes

/-- Numerics that compare equal are the same number, or no number. -/
theorem cmpNumerics_eq_zero {key1 key2 : NumericDatum} (canonical1 : key1.Canonical)
    (canonical2 : key2.Canonical) (equal : cmpNumerics key1 key2 = some 0) :
    key1.number = key2.number := by
  have cases : ∀ key : NumericDatum, key.Canonical → key = .nan ∨ ∃ number, key.Is number := by
    rintro (_ | num | n) canonical
    · exact .inl rfl
    · exact .inr ⟨num.rational, canonical, rfl⟩
    · exact .inr ⟨n.value, canonical, rfl⟩
  have nan : NumericDatum.nan.bitonumeric = some .nan := rfl
  unfold cmpNumerics at equal
  obtain rfl | ⟨number1, is1⟩ := cases key1 canonical1
  · obtain rfl | ⟨number2, is2⟩ := cases key2 canonical2
    · rfl
    · obtain ⟨n2, made2, -, -⟩ := is2.bitonumeric
      rw [made2, nan] at equal
      simp at equal
  · obtain ⟨n1, made1, valid1, value1⟩ := is1.bitonumeric
    obtain rfl | ⟨number2, is2⟩ := cases key2 canonical2
    · rw [made1, nan] at equal
      simp at equal
    · obtain ⟨n2, made2, valid2, value2⟩ := is2.bitonumeric
      rw [made1, made2, Option.bind_eq_bind, Option.bind_some, Option.bind_some] at equal
      dsimp only at equal
      rw [cmpVarCommon_spec valid1 valid2, value1, value2] at equal
      have order : threeWay number1 number2 = 0 := Option.some.inj equal
      have least := (threeWay_lt_zero number1 number2).not.mp (by omega)
      have most := (threeWay_pos number1 number2).not.mp (by omega)
      rw [is1.number, is2.number, le_antisymm (not_lt.mp most) (not_lt.mp least)]

/-- Whatever the hash functions below are, numerics that compare equal have one hash value. -/
theorem hashBi_eq (hashUint32 : BitVec 32 → BitVec 32) (hashAny : List Nat → BitVec 32)
    {key1 key2 : NumericDatum} (canonical1 : key1.Canonical) (canonical2 : key2.Canonical)
    (equal : cmpNumerics key1 key2 = some 0) :
    ∃ hash, hashBi hashUint32 hashAny key1 = some hash ∧ hashBi hashUint32 hashAny key2 = some hash := by
  have same := cmpNumerics_eq_zero canonical1 canonical2 equal
  cases number : key2.number with
  | none =>
    have nan : ∀ key : NumericDatum, key.number = none → key = .nan := by
      rintro (_ | num | n) absent
      · rfl
      all_goals exact absurd absent (by simp [NumericDatum.number])
    rw [nan key2 number, nan key1 (same.trans number)]
    exact ⟨0, rfl, rfl⟩
  | some value =>
    have is1 : key1.Is value := ⟨canonical1, same.trans number⟩
    have is2 : key2.Is value := ⟨canonical2, number⟩
    by_cases holds : Holds 128 value
    · obtain ⟨data1, scale1, value1, hash1⟩ := hashBi_holds hashUint32 hashAny is1 holds
      obtain ⟨data2, scale2, value2, hash2⟩ := hashBi_holds hashUint32 hashAny is2 holds
      rw [int128HashBi_congr hashUint32 (value1.trans value2.symm)] at hash1
      exact ⟨_, hash1, hash2⟩
    · obtain ⟨n1, valid1, some1, value1, hash1⟩ := hashBi_wide hashUint32 hashAny is1 holds
      obtain ⟨n2, valid2, some2, value2, hash2⟩ := hashBi_wide hashUint32 hashAny is2 holds
      obtain ⟨weight, digits⟩ :=
        canonical_unique valid1 valid2 some1 some2 (value1.trans value2.symm)
      obtain ⟨hash, hashed⟩ := hashNumeric_some hashAny valid2 some2
      have hashed1 : hashNumeric hashAny n1 = hashNumeric hashAny n2 := by
        rw [hashNumeric, hashNumeric, weight, digits]
      exact ⟨hash, hash1.trans (hashed1.trans hashed), hash2.trans hashed⟩

/-- 1.50 as an integer, and 1.5000 in digits. -/
theorem hashBi_eq_sample :
    ∃ hash, hashBi id (fun _ => 0) (.bi (.bi64 ⟨150, 2, by decide, by decide⟩)) = some hash ∧
      hashBi id (fun _ => 0) (.normal (shortNumeric false 4 0 [1, 5000])) = some hash := by
  have digits : StrippedDigits ((15000 : Nat) / 10 ^ 4) 0 [1, 5000] :=
    ⟨by decide, by decide, by decide, by norm_num [digitsValue, nbase]⟩
  obtain ⟨canonical, -⟩ := @canonical_shortNumeric false 15000 4 0 _ (by decide) (by decide) digits
  exact hashBi_eq id (fun _ => 0) trivial canonical (by decide +kernel)

end OpenGauss.BigInteger
