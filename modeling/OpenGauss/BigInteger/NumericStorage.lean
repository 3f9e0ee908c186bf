import OpenGauss.BigInteger.NumericWeight

/-! The stored form of a numeric in digits of base `NBASE`, `numeric.h`. -/

namespace OpenGauss.BigInteger

/-- The header word, the word that only the long format has, and the digits. -/
structure NumericData where
  nHeader : BitVec 16
  nWeight : Int
  nData : List Nat
deriving DecidableEq

namespace NumericData

variable (n : NumericData)

def isNanOrBi : Bool := decide (0xC000#16 ≤ n.nHeader &&& 0xF000#16)

def headerIsShort : Bool := n.nHeader &&& 0x8000#16 != 0#16

def isShort : Bool := n.nHeader &&& 0xC000#16 == 0x8000#16

def negative : Bool :=
  if n.isShort then n.nHeader &&& 0x2000#16 != 0#16 else n.nHeader &&& 0xC000#16 == 0x4000#16

def dscale : Nat :=
  if n.headerIsShort then ((n.nHeader &&& 0x1F80#16) >>> 7).toNat
  else (n.nHeader &&& 0x3FFF#16).toNat

def shortWeight (nHeader : BitVec 16) : Int :=
  ((if nHeader &&& 0x0040#16 ≠ 0#16 then ~~~0x3F#32 else 0#32) |||
    (nHeader &&& 0x003F#16).setWidth 32).toInt

def weight : Int :=
  if n.headerIsShort then shortWeight n.nHeader else n.nWeight

def magnitude : ℚ := digitsValue n.weight n.nData

def value : ℚ := if n.negative then -n.magnitude else n.magnitude

end NumericData

def numericShortDscaleMax : Nat := 63

def numericShortWeightMax : Int := 63

def numericShortWeightMin : Int := -64

def numericCanBeShort (dscale : Nat) (weight : Int) : Prop :=
  dscale ≤ numericShortDscaleMax ∧ weight ≤ numericShortWeightMax ∧ numericShortWeightMin ≤ weight

instance (dscale : Nat) (weight : Int) : Decidable (numericCanBeShort dscale weight) :=
  inferInstanceAs (Decidable (_ ∧ _))

/-- What `make_result` sees to: the digits are stripped of zeros on both sides, zero has none and
weight 0, and the format is the short one where it can be. That no digit is hidden by the display
scale is required of what it is given. -/
structure NumericData.Canonical (n : NumericData) : Prop where
  normal : n.isNanOrBi = false
  small : ∀ digit ∈ n.nData, digit < nbase
  leading : n.nData.head? ≠ some 0
  trailing : n.nData.getLast? ≠ some 0
  zero : n.nData = [] → n.weight = 0 ∧ n.negative = false
  short : numericCanBeShort n.dscale n.weight → n.headerIsShort = true
  displayed : ∃ data : Nat, n.magnitude = (data : ℚ) / 10 ^ n.dscale

theorem NumericData.Canonical.exists_first {n : NumericData} (canonical : n.Canonical)
    (nonempty : n.nData ≠ []) : ∃ first rest, n.nData = first :: rest ∧ first ≠ 0 := by
  obtain ⟨first, rest, digits⟩ := List.exists_cons_of_ne_nil nonempty
  exact ⟨first, rest, digits, fun zero => canonical.leading (by rw [digits, zero]; rfl)⟩

theorem NumericData.value_of_nil {n : NumericData} (empty : n.nData = []) : n.value = 0 := by
  rw [value, magnitude, empty, digitsValue, neg_zero, ite_self]

theorem top_bits (nHeader : BitVec 16) :
    nHeader &&& 0xF000#16 = ((nHeader.extractLsb' 12 4).setWidth 16) <<< 12 := by
  ext i inside
  interval_cases i <;> simp

/-- But for NaN and the integers, the highest bit alone tells the short format. -/
theorem isShort_of_headerIsShort {n : NumericData} (normal : n.isNanOrBi = false)
    (short : n.headerIsShort = true) : n.isShort = true := by
  have every : ∀ top : BitVec 4, let word := top.setWidth 16 <<< 12
      ¬ 0xC000#16 ≤ word → word &&& 0x8000#16 ≠ 0#16 → word &&& 0xC000#16 = 0x8000#16 := by decide
  have own := every (n.nHeader.extractLsb' 12 4)
  simp only [← top_bits, BitVec.and_assoc] at own
  simp only [NumericData.isNanOrBi, NumericData.headerIsShort, NumericData.isShort] at *
  simpa using own (by simpa using normal) (by simpa using short)

def weightBits (weight : Int) : BitVec 16 :=
  (if weight < 0 then 0x0040#16 else 0#16) ||| (BitVec.ofInt 16 weight &&& 0x003F#16)

def shortHeader (negative : Bool) (dscale : Nat) (weight : Int) : BitVec 16 :=
  (if negative then 0x8000#16 ||| 0x2000#16 else 0x8000#16) ||| BitVec.ofNat 16 (dscale <<< 7) |||
    weightBits weight

def shortNumeric (negative : Bool) (dscale : Nat) (weight : Int) (digits : List Nat) : NumericData :=
  ⟨shortHeader negative dscale weight, 0, digits⟩

theorem dscale_part {dscale : Nat} (fits : dscale ≤ numericShortDscaleMax) :
    let part := BitVec.ofNat 16 (dscale <<< 7)
    (part &&& 0xF000#16 = 0#16 ∨ part &&& 0xF000#16 = 0x1000#16) ∧ part &&& 0xC000#16 = 0#16 ∧
      part &&& 0x8000#16 = 0#16 ∧ part &&& 0x2000#16 = 0#16 ∧
      ((part &&& 0x1F80#16) >>> 7).toNat = dscale ∧ part &&& 0x0040#16 = 0#16 ∧
      part &&& 0x003F#16 = 0#16 := by
  have every : ∀ few : Fin 64, let part := BitVec.ofNat 16 (few.val <<< 7)
      (part &&& 0xF000#16 = 0#16 ∨ part &&& 0xF000#16 = 0x1000#16) ∧ part &&& 0xC000#16 = 0#16 ∧
      part &&& 0x8000#16 = 0#16 ∧ part &&& 0x2000#16 = 0#16 ∧
      ((part &&& 0x1F80#16) >>> 7).toNat = few.val ∧ part &&& 0x0040#16 = 0#16 ∧
      part &&& 0x003F#16 = 0#16 := by decide
  exact every ⟨dscale, Nat.lt_succ_of_le fits⟩

theorem weight_part {weight : Int} (most : weight ≤ numericShortWeightMax)
    (least : numericShortWeightMin ≤ weight) :
    let part := weightBits weight
    part &&& 0xF000#16 = 0#16 ∧ part &&& 0xC000#16 = 0#16 ∧ part &&& 0x8000#16 = 0#16 ∧
      part &&& 0x2000#16 = 0#16 ∧ part &&& 0x1F80#16 = 0#16 ∧
      NumericData.shortWeight part = weight := by
  have every : ∀ few : Fin 128, let part := weightBits (few.val - 64)
      part &&& 0xF000#16 = 0#16 ∧ part &&& 0xC000#16 = 0#16 ∧ part &&& 0x8000#16 = 0#16 ∧
      part &&& 0x2000#16 = 0#16 ∧ part &&& 0x1F80#16 = 0#16 ∧
      NumericData.shortWeight part = few.val - 64 := by decide
  have index : (weight + 64).toNat < 128 := by
    simp only [numericShortWeightMax, numericShortWeightMin] at most least
    omega
  have back : ((weight + 64).toNat : Int) - 64 = weight := by
    simp only [numericShortWeightMin] at least
    omega
  have own := every ⟨(weight + 64).toNat, index⟩
  rwa [back] at own

section Short

variable {negative : Bool} {dscale : Nat} {weight : Int} {digits : List Nat}
  (fits : numericCanBeShort dscale weight)
include fits

/-- The masks read back what the header was made of. -/
theorem shortNumeric_header : (shortNumeric negative dscale weight digits).isNanOrBi = false ∧
    (shortNumeric negative dscale weight digits).headerIsShort = true ∧
    (shortNumeric negative dscale weight digits).isShort = true := by
  obtain ⟨nanOrBi, flags, top, -, -, -, -⟩ := dscale_part fits.1
  obtain ⟨nanOrBi', flags', top', -, -, -⟩ := weight_part fits.2.1 fits.2.2
  simp only [NumericData.isNanOrBi, NumericData.headerIsShort, NumericData.isShort, shortNumeric,
    shortHeader, BitVec.and_or_distrib_right, flags, flags', top, top', nanOrBi']
  refine ⟨?_, by cases negative <;> decide, by cases negative <;> decide⟩
  obtain absent | one := nanOrBi
  · rw [absent]
    cases negative <;> decide
  · rw [one]
    cases negative <;> decide

theorem shortNumeric_negative : (shortNumeric negative dscale weight digits).negative = negative := by
  obtain ⟨-, -, -, sign, -, -, -⟩ := dscale_part fits.1
  obtain ⟨-, -, -, sign', -, -⟩ := weight_part fits.2.1 fits.2.2
  rw [NumericData.negative, if_pos (shortNumeric_header fits).2.2]
  simp only [shortNumeric, shortHeader, BitVec.and_or_distrib_right, sign, sign']
  cases negative <;> decide

theorem shortNumeric_dscale : (shortNumeric negative dscale weight digits).dscale = dscale := by
  obtain ⟨-, -, -, -, own, -, -⟩ := dscale_part fits.1
  obtain ⟨-, -, -, -, other, -⟩ := weight_part fits.2.1 fits.2.2
  have sign : (if negative then 0x8000#16 ||| 0x2000#16 else 0x8000#16) &&& 0x1F80#16 = 0#16 := by
    cases negative <;> decide
  rw [NumericData.dscale, if_pos (shortNumeric_header fits).2.1]
  simp only [shortNumeric, shortHeader, BitVec.and_or_distrib_right, sign, other]
  simpa using own

theorem shortNumeric_weight : (shortNumeric negative dscale weight digits).weight = weight := by
  obtain ⟨-, -, -, -, -, first, second⟩ := dscale_part fits.1
  obtain ⟨-, -, -, -, -, own⟩ := weight_part fits.2.1 fits.2.2
  have sign : (if negative then 0x8000#16 ||| 0x2000#16 else 0x8000#16) &&& 0x0040#16 = 0#16 := by
    cases negative <;> decide
  have sign' : (if negative then 0x8000#16 ||| 0x2000#16 else 0x8000#16) &&& 0x003F#16 = 0#16 := by
    cases negative <;> decide
  rw [NumericData.weight, if_pos (shortNumeric_header fits).2.1]
  simp only [NumericData.shortWeight] at own
  simp only [NumericData.shortWeight, shortNumeric, shortHeader, BitVec.and_or_distrib_right, sign,
    sign', first, second, BitVec.zero_or]
  exact own

end Short

def digitsNat (digits : List Nat) : Nat := Nat.ofDigits nbase digits.reverse

theorem digitsNat_cons (digit : Nat) (digits : List Nat) :
    digitsNat (digit :: digits) = digit * nbase ^ digits.length + digitsNat digits := by
  rw [digitsNat, List.reverse_cons, Nat.ofDigits_append, Nat.ofDigits_singleton,
    List.length_reverse, digitsNat, Nat.add_comm, Nat.mul_comm]

theorem digitsNat_singleton (digit : Nat) : digitsNat [digit] = digit := by simp [digitsNat]

theorem digitsNat_append (digits rest : List Nat) :
    digitsNat (digits ++ rest) = digitsNat digits * nbase ^ rest.length + digitsNat rest := by
  rw [digitsNat, List.reverse_append, Nat.ofDigits_append, List.length_reverse, digitsNat,
    digitsNat, Nat.add_comm, Nat.mul_comm]

theorem digitsNat_lt {digits : List Nat} (small : ∀ digit ∈ digits, digit < nbase) :
    digitsNat digits < nbase ^ digits.length := by
  have below := Nat.ofDigits_lt_base_pow_length (by decide : 1 < nbase)
    (fun digit member => small digit (List.mem_reverse.mp member))
  rwa [List.length_reverse] at below

/-- Digits of one length are told apart by their number. -/
theorem digitsNat_unique {digits others : List Nat} (length : digits.length = others.length)
    (small : ∀ digit ∈ digits, digit < nbase) (otherSmall : ∀ digit ∈ others, digit < nbase)
    (same : digitsNat digits = digitsNat others) : digits = others := by
  apply List.reverse_injective
  refine Nat.ofDigits_inj_of_len_eq (by decide : 1 < nbase) (by simpa using length) ?_ ?_ same
  · exact fun digit member => small digit (List.mem_reverse.mp member)
  · exact fun digit member => otherSmall digit (List.mem_reverse.mp member)

/-- A last digit that is not 0 tells that no more places are needed. -/
theorem not_dvd_digitsNat {digits : List Nat} (small : ∀ digit ∈ digits, digit < nbase)
    (nonempty : digits ≠ []) (trailing : digits.getLast? ≠ some 0) :
    ¬ nbase ∣ digitsNat digits := by
  intro multiple
  obtain ⟨front, last, split⟩ := List.eq_nil_or_concat digits |>.resolve_left nonempty
  rw [split, List.concat_eq_append, digitsNat_append, digitsNat_singleton,
    List.length_singleton, pow_one, Nat.dvd_add_right (Dvd.intro_left _ rfl)] at multiple
  have zero : last = 0 := Nat.eq_zero_of_dvd_of_lt multiple (small last (by simp [split]))
  exact trailing (by simp [split, zero])

theorem digitsValue_eq (weight : Int) (digits : List Nat) :
    digitsValue weight digits = digitsNat digits * (nbase : ℚ) ^ (weight + 1 - digits.length) := by
  have base : (nbase : ℚ) ≠ 0 := by norm_num [nbase]
  induction digits generalizing weight with
  | nil => simp [digitsValue, digitsNat]
  | cons digit digits ih =>
    have first : weight = (digits.length : Int) + (weight - digits.length) := by omega
    have places : weight + 1 - ((digit :: digits).length : Int) = weight - digits.length := by
      rw [List.length_cons, Nat.cast_succ]
      omega
    have others : weight - 1 + 1 - (digits.length : Int) = weight - digits.length := by omega
    rw [digitsValue, ih, digitsNat_cons, places, others]
    nth_rewrite 1 [first]
    rw [zpow_add₀ base, zpow_natCast]
    push_cast
    ring

theorem digitsValue_append (weight : Int) (digits rest : List Nat) : digitsValue weight (digits ++ rest) =
      digitsValue weight digits + digitsValue (weight - digits.length) rest := by
  induction digits generalizing weight with
  | nil => simp [digitsValue]
  | cons digit digits ih =>
    have shift : weight - 1 - (digits.length : Int) = weight - ((digit :: digits).length : Int) := by
      rw [List.length_cons, Nat.cast_succ]
      omega
    rw [List.cons_append, digitsValue, digitsValue, ih, shift, add_assoc]

namespace NumericData

/-- The decimal places of the display scale that are beyond the last digit. -/
def scaleDiff (n : NumericData) : Int :=
  n.dscale - ((n.nData.length : Int) - n.weight - 1) * decDigits

section Shown

variable {n : NumericData} {data : Nat} (shown : n.magnitude = (data : ℚ) / 10 ^ n.dscale)
include shown

theorem scaled : (digitsNat n.nData : ℚ) * 10 ^ n.scaleDiff = data := by
  have base : (nbase : ℚ) = 10 ^ (decDigits : Int) := by norm_num [nbase, decDigits]
  have split : n.scaleDiff = decDigits * (n.weight + 1 - n.nData.length) + n.dscale := by
    rw [scaleDiff]
    ring
  rw [magnitude, digitsValue_eq, base, ← zpow_mul] at shown
  rw [split, zpow_add₀ (by norm_num), ← mul_assoc, shown, zpow_natCast]
  field_simp

theorem scaled_up {places : Nat} (diff : n.scaleDiff = places) : digitsNat n.nData * 10 ^ places = data := by
  have whole := scaled shown
  rw [diff, zpow_natCast] at whole
  exact_mod_cast whole

theorem scaled_down {places : Nat} (diff : n.scaleDiff = -places) :
    digitsNat n.nData = data * 10 ^ places := by
  have whole := scaled shown
  rw [diff, zpow_neg, zpow_natCast, ← div_eq_mul_inv, div_eq_iff (by positivity)] at whole
  exact_mod_cast whole

end Shown

section Canonical

variable {n : NumericData} (canonical : n.Canonical)
include canonical

theorem Canonical.scaleDiff_gt (nonempty : n.nData ≠ []) : -decDigits < n.scaleDiff := by
  by_contra hidden
  obtain ⟨data, shown⟩ := canonical.displayed
  obtain ⟨more, places⟩ := Int.eq_ofNat_of_zero_le (a := -n.scaleDiff - decDigits) (by omega)
  have whole := @scaled_down n data shown (decDigits + more) (by push_cast; omega)
  have multiple : nbase ∣ digitsNat n.nData := by
    rw [whole, pow_add, ← nbase_eq]
    exact ⟨data * 10 ^ more, by ring⟩
  exact not_dvd_digitsNat canonical.small nonempty canonical.trailing multiple

end Canonical

end NumericData

end OpenGauss.BigInteger
