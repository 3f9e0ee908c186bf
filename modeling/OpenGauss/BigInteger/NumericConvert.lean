import OpenGauss.BigInteger.Division
import OpenGauss.BigInteger.NumericStorage
import Mathlib.Data.List.DropRight

/-! Numerics from digits to one integer with a scale and back, `numeric.cpp`. -/

namespace OpenGauss.BigInteger

open Lib

/-- An entry of a table of powers, `none` beyond it. -/
def tableEntry (table : Nat → Int) (most : Nat) (index : Int) : Option Int :=
  if 0 ≤ index ∧ index ≤ most then some (table index.toNat) else none

/-- The digits as the short format has them. -/
def NumericData.shortNumericDigits (n : NumericData) : Option (List Nat) :=
  if n.isShort then some n.nData else none

def decimalDigits (firstDigit : Nat) : Nat :=
  if 1000 ≤ firstDigit then 4
  else if 100 ≤ firstDigit then 3
  else if 10 ≤ firstDigit then 2
  else 1

def getWholeScale (n : NumericData) : Int :=
  match n.nData with
  | [] => n.dscale
  | firstDigit :: _ =>
    if 0 ≤ n.weight then n.weight * decDigits + n.dscale + decimalDigits firstDigit else n.dscale

/-- At most 6 digits are encoded, which are within 128 bits. -/
def encodeDigits (digits : List Nat) : Int :=
  if digits.length ≤ 6 then
    digits.foldl (fun (result : Int) (digit : Nat) => result * nbase + digit) 0
  else 0

def adjustScale (result scaleDiff : Int) : Option Int :=
  if 0 < scaleDiff then do
    let multiplier ← tableEntry scaleMultipler maxInt64Digit scaleDiff
    signed 128 (result * multiplier)
  else do
    let divisor ← tableEntry scaleMultipler maxInt64Digit (-scaleDiff)
    some (result.tdiv divisor)

def convertShortNumericToInt64Byscale (n : NumericData) (scale : Nat) : Option Int := do
  let digits ← n.shortNumericDigits
  let ascale : Int := if 0 < digits.length then digits.length - n.weight - 1 else 0
  let adjusted ← adjustScale (encodeDigits digits) (scale - ascale * decDigits)
  signed 64 (if n.negative then -adjusted else adjusted)

/-- The loop of step 1, each digit multiplied by its place. -/
def addDigits : Int → List Nat → Option Int
  | result, [] => some result
  | result, digit :: digits => do
      let place ← tableEntry getScaleMultiplier maxInt128Digit (digits.length * decDigits : Nat)
      let product ← signed 128 (digit * place)
      let sum ← signed 128 (result + product)
      addDigits sum digits

/-- Step 3 and the sign. -/
def adjustByDiffScale (negative : Bool) (result diffScale : Int) : Option Int := do
  let multiplier ← tableEntry getScaleMultiplier maxInt128Digit diffScale
  let adjusted ← signed 128 (result * multiplier)
  signed 128 (if negative then -adjusted else adjusted)

def convertShortNumericToInt128Byscale (n : NumericData) (dscale : Nat) : Option Int := do
  let digits ← n.shortNumericDigits
  match digits.getLast? with
  | none => some 0
  | some last =>
    let remainder := dscale % decDigits
    let ascale : Int := digits.length - (n.weight + 1)
    -- The last digit has decimal places beyond the display scale.
    if 0 < ascale ∧ remainder ≠ 0 ∧ ((dscale / decDigits + 1 : Nat) : Int) = ascale then do
      let result ← addDigits 0 digits.dropLast
      let raised ← signed 128 (result * getScaleMultiplier remainder)
      let divisor := getScaleMultiplier (decDigits - remainder)
      let filled ← signed 128 (raised + (last : Int).tdiv divisor)
      adjustByDiffScale n.negative filled (dscale - (ascale - 1) * 4 - (dscale % 4 : Nat))
    else do
      let result ← addDigits 0 digits
      adjustByDiffScale n.negative result (dscale - ascale * 4)

inductive NumericDatum where
  | nan
  | bi (num : BiNumeric)
  | normal (n : NumericData)

/-- The integer with its scale, `none` where either is outside the type. -/
def makeBi (bits digits : Nat) (value : Int) (scale : Nat) : Option (Bi bits digits) :=
  if inside : InSigned bits value ∧ scale ≤ digits then some ⟨value, scale, inside.1, inside.2⟩
  else none

/-- The numeric itself where it is not converted, `none` where the conversion overflows a type or
reads beyond a table. -/
def tryConvertNumericNormalToFast (enableFastNumeric : Bool) : NumericDatum → Option NumericDatum
  | .normal n =>
    if !enableFastNumeric then some (.normal n)
    else if getWholeScale n ≤ maxInt64Digit - 1 then do
      let result ← convertShortNumericToInt64Byscale n n.dscale
      let num ← makeBi 64 maxInt64Digit result n.dscale
      some (.bi (.bi64 num))
    else if getWholeScale n ≤ maxInt128Digit then do
      let result ← convertShortNumericToInt128Byscale n n.dscale
      let num ← makeBi 128 maxInt128Digit result n.dscale
      some (.bi (.bi128 num))
    else some (.normal n)
  | val => some val

/-- The loop of step 3, which fills its buffer from behind. -/
def preDataDigits (preData : Nat) (buf1 : List Nat) : List Nat :=
  let filled := (preData - preData / nbase * nbase) :: buf1
  if preData / nbase ≠ 0 then preDataDigits (preData / nbase) filled else filled
termination_by preData
decreasing_by
  rename_i more
  simp only [nbase] at *
  omega

/-- The loop of step 4 and the last digit, which is filled up with zeros. -/
def postDataDigits (multiplier : Nat → Nat) (postData resultScale : Nat) : List Nat :=
  if postData ≠ 0 ∧ decDigits ≤ resultScale then
    postData / multiplier (resultScale - decDigits) ::
      postDataDigits multiplier (postData % multiplier (resultScale - decDigits)) (resultScale - decDigits)
  else if postData ≠ 0 then [postData * (scaleMultipler (decDigits - resultScale)).toNat]
  else []
termination_by resultScale
decreasing_by
  have four : decDigits = 4 := rfl
  omega

/-- The loop of step 5 over the zeros right behind the decimal point. -/
def skipZeros : Int → List Nat → Int × List Nat
  | weight, [] => (weight, [])
  | weight, digit :: digits =>
    if digit ≠ 0 then (weight - 1, digit :: digits) else skipZeros (weight - 1) digits

/-- Weight and digits, `none` where a buffer is too small. -/
def splitDigits (multiplier : Nat → Nat) (bufDigits uval scale : Nat) : Option (Int × List Nat) :=
  let preData := uval / 10 ^ scale
  let postData := uval % 10 ^ scale
  let buf1 := if preData ≠ 0 then preDataDigits preData [] else []
  let buf2 := postDataDigits multiplier postData scale
  if buf1.length ≤ bufDigits ∧ buf2.length ≤ bufDigits then
    if buf1 ≠ [] then
      if buf2 ≠ [] then some ((buf1.length : Int) - 1, buf1 ++ buf2)
      else some ((buf1.length : Int) - 1, buf1.rdropWhile (· == 0))
    else some (skipZeros 0 buf2)
  else none

def convertIntToNumeric (multiplier : Nat → Nat) (bits bufDigits : Nat) (data : Int) (scale : Nat) :
    Option NumericData := do
  let uval ← absoluteVal .fwrapv bits data
  if uval = 0 then some (shortNumeric false scale 0 [])
  else do
    let (weight, digits) ← splitDigits multiplier bufDigits uval scale
    some (shortNumeric (decide (data < 0)) scale weight digits)

def convertInt64ToNumeric (data : Int) (scale : Nat) : Option NumericData :=
  convertIntToNumeric (fun index => (scaleMultipler index).toNat) 64 (20 / decDigits) data scale

def convertInt128ToNumeric (data : Int) (scale : Nat) : Option NumericData :=
  convertIntToNumeric (fun index => (getScaleMultiplier index).toNat) 128 (40 / decDigits) data
    scale

def makeNumericNormal : BiNumeric → Option NumericData
  | .bi64 num => convertInt64ToNumeric num.value num.scale
  | .bi128 num => convertInt128ToNumeric num.value num.scale

theorem encodeDigits_fold (result : Int) (digits : List Nat) :
    digits.foldl (fun (result : Int) (digit : Nat) => result * nbase + digit) result =
      result * nbase ^ digits.length + digitsNat digits := by
  induction digits generalizing result with
  | nil => simp [digitsNat]
  | cons digit digits ih =>
    rw [List.foldl_cons, ih, digitsNat_cons, List.length_cons, pow_succ]
    push_cast
    ring

theorem encodeDigits_eq {digits : List Nat} (few : digits.length ≤ 6) :
    encodeDigits digits = digitsNat digits := by
  rw [encodeDigits, if_pos few, encodeDigits_fold, zero_mul, zero_add]

theorem tableEntry_of_le {table : Nat → Int} {most index : Nat} (inside : index ≤ most) :
    tableEntry table most index = some (table index) := by
  rw [tableEntry, if_pos ⟨by omega, by omega⟩, Int.toNat_natCast]

theorem tableEntry_getScaleMultiplier {index : Nat} (inside : index ≤ maxInt128Digit) :
    tableEntry getScaleMultiplier maxInt128Digit index = some (10 ^ index) :=
  tableEntry_of_le inside

theorem inSigned_of_lt {value : Int} (nonneg : 0 ≤ value) (below : value < 2 ^ 127) :
    InSigned 128 value := by
  have width : 128 - 1 = 127 := rfl
  apply inSigned_of_abs_lt
  rwa [abs_of_nonneg nonneg, width]

theorem addDigits_eq {digits : List Nat} (few : digits.length ≤ 10) {result : Int}
    (nonneg : 0 ≤ result) (below : result + digitsNat digits < 2 ^ 127) :
    addDigits result digits = some (result + digitsNat digits) := by
  induction digits generalizing result with
  | nil => simp [addDigits, digitsNat]
  | cons digit digits ih =>
    have place : tableEntry getScaleMultiplier maxInt128Digit (digits.length * decDigits : Nat) =
        some ((nbase : Int) ^ digits.length) := by
      rw [List.length_cons] at few
      rw [tableEntry_getScaleMultiplier (by simp only [decDigits, maxInt128Digit]; omega),
        nbase_eq, Nat.mul_comm, pow_mul]
      norm_cast
    rw [digitsNat_cons] at below
    push_cast at below
    have product : (0 : Int) ≤ digit * nbase ^ digits.length := by positivity
    have others : (0 : Int) ≤ digitsNat digits := by positivity
    have sum : (0 : Int) ≤ result + digit * nbase ^ digits.length := by omega
    rw [addDigits, place, Option.bind_eq_bind, Option.bind_some,
      signed_of_in (inSigned_of_lt product (by linarith)), Option.bind_some,
      signed_of_in (inSigned_of_lt sum (by linarith)), Option.bind_some,
      ih ((Nat.le_succ _).trans few) sum (by linarith), digitsNat_cons]
    push_cast
    rw [add_assoc]

def withSign (negative : Bool) (data : Nat) : Int := if negative then -data else data

theorem natAbs_withSign (negative : Bool) (data : Nat) : (withSign negative data).natAbs = data := by
  cases negative <;> simp [withSign]

theorem NumericData.rational_withSign {n : NumericData} {data scale : Nat}
    (shown : n.magnitude = (data : ℚ) / 10 ^ scale) :
    rational (withSign n.negative data) scale = n.value := by
  rw [NumericData.value, shown, rational, withSign]
  cases n.negative
  · simp
  · simp [neg_div]

theorem inSigned_withSign {bits data : Nat} (below : data < 2 ^ (bits - 1)) (negative : Bool) :
    InSigned bits (withSign negative data) := by
  apply inSigned_of_abs_lt
  have same : |withSign negative data| = data := by cases negative <;> simp [withSign]
  rw [same]
  exact_mod_cast below

theorem adjustByDiffScale_eq {negative : Bool} {result places : Nat} {diffScale : Int}
    (diff : diffScale = places) (few : places ≤ maxInt128Digit)
    (below : result * 10 ^ places < 2 ^ 127) :
    adjustByDiffScale negative result diffScale = some (withSign negative (result * 10 ^ places)) := by
  have width : 128 - 1 = 127 := rfl
  have inside := @inSigned_withSign 128 (result * 10 ^ places) (by rwa [width]) negative
  have positive : InSigned 128 ((result : Int) * 10 ^ places) :=
    inSigned_of_lt (by positivity) (by exact_mod_cast below)
  rw [adjustByDiffScale, diff, tableEntry_getScaleMultiplier few, Option.bind_eq_bind,
    Option.bind_some, signed_of_in positive, Option.bind_some]
  unfold withSign at *
  push_cast at *
  rw [signed_of_in inside]

theorem scaleMultipler_of_lt {scale : Nat} (few : scale < maxInt64Digit) :
    scaleMultipler scale = 10 ^ scale :=
  if_neg few.ne

theorem tableEntry_scaleMultipler {index : Nat} (inside : index < maxInt64Digit) :
    tableEntry scaleMultipler maxInt64Digit index = some (10 ^ index) := by
  rw [tableEntry_of_le inside.le, scaleMultipler_of_lt inside]

theorem adjustScale_up {result data places : Nat} (whole : result * 10 ^ places = data)
    (few : places < maxInt64Digit) (below : data < 2 ^ 127) :
    adjustScale result places = some (data : Int) := by
  have inside : InSigned 128 (data : Int) :=
    inSigned_of_lt (Int.natCast_nonneg data) (by exact_mod_cast below)
  unfold adjustScale
  by_cases zero : places = 0
  · have same : result = data := by rw [← whole, zero, pow_zero, mul_one]
    rw [zero, if_neg (by decide), same]
    exact congrArg some (Int.tdiv_one _)
  · have product : (result : Int) * 10 ^ places = data := by exact_mod_cast whole
    rw [if_pos (by omega), tableEntry_scaleMultipler few, Option.bind_eq_bind, Option.bind_some,
      product, signed_of_in inside]

theorem adjustScale_down {result data places : Nat} (whole : result = data * 10 ^ places)
    (few : places < maxInt64Digit) : adjustScale result (-places) = some (data : Int) := by
  have power : (10 : Int) ^ places ≠ 0 := by positivity
  unfold adjustScale
  rw [if_neg (by omega), neg_neg, tableEntry_scaleMultipler few, Option.bind_eq_bind,
    Option.bind_some, whole, Nat.cast_mul, Nat.cast_pow, Nat.cast_ofNat,
    Int.mul_tdiv_cancel _ power]

theorem decimalDigits_bounds {firstDigit : Nat} (small : firstDigit < nbase) :
    1 ≤ decimalDigits firstDigit ∧ firstDigit + 1 ≤ 10 ^ decimalDigits firstDigit := by
  unfold decimalDigits
  rw [nbase] at small
  split_ifs <;> omega

section Canonical

variable {n : NumericData} (canonical : n.Canonical)
include canonical

/-- The whole scale counts the decimal digits, the suppressed zeros included. -/
theorem magnitude_lt : n.magnitude < 10 ^ (getWholeScale n - n.dscale) := by
  have base : (nbase : ℚ) = 10 ^ (decDigits : Int) := by norm_num [nbase, decDigits]
  have small := canonical.small
  unfold NumericData.magnitude getWholeScale
  cases digits : n.nData with
  | nil => simp [digitsValue]
  | cons firstDigit others =>
    rw [digits] at small
    obtain ⟨first, rest⟩ := List.forall_mem_cons.mp small
    obtain ⟨-, below⟩ := @digitsValue_bounds (n.weight - 1) others rest
    obtain ⟨-, filled⟩ := decimalDigits_bounds first
    have power : (0 : ℚ) < (nbase : ℚ) ^ n.weight := zpow_pos (by norm_num [nbase]) _
    rw [sub_add_cancel] at below
    dsimp only
    by_cases whole : 0 ≤ n.weight
    · have exponent : n.weight * decDigits + n.dscale + decimalDigits firstDigit - n.dscale =
          (decimalDigits firstDigit : Int) + decDigits * n.weight := by ring
      have filled' : (firstDigit : ℚ) + 1 ≤ 10 ^ decimalDigits firstDigit := by
        exact_mod_cast filled
      rw [if_pos whole, exponent, zpow_add₀ (by norm_num), zpow_natCast, zpow_mul, ← base,
        digitsValue]
      calc (firstDigit : ℚ) * (nbase : ℚ) ^ n.weight + digitsValue (n.weight - 1) others
          < (firstDigit + 1) * (nbase : ℚ) ^ n.weight := by rw [add_mul, one_mul]; linarith
        _ ≤ 10 ^ decimalDigits firstDigit * (nbase : ℚ) ^ n.weight :=
            mul_le_mul_of_nonneg_right filled' power.le
    · obtain ⟨-, all⟩ := @digitsValue_bounds n.weight _ small
      have one : (nbase : ℚ) ^ (n.weight + 1) ≤ 1 :=
        zpow_le_one_of_nonpos₀ (by norm_num [nbase]) (by omega)
      rw [if_neg whole, sub_self, zpow_zero]
      exact all.trans_le one

theorem data_lt {data most : Nat} (shown : n.magnitude = (data : ℚ) / 10 ^ n.dscale)
    (admitted : getWholeScale n ≤ most) : data < 10 ^ most := by
  have below := magnitude_lt canonical
  rw [shown, div_lt_iff₀ (by positivity), ← zpow_natCast, ← zpow_add₀ (by norm_num),
    sub_add_cancel] at below
  have powers : (10 : ℚ) ^ getWholeScale n ≤ 10 ^ (most : Int) :=
    zpow_le_zpow_right₀ (by norm_num) admitted
  have all := below.trans_le powers
  rw [zpow_natCast] at all
  exact_mod_cast all

/-- What the whole scale says of weight and display scale. -/
theorem getWholeScale_cases (nonempty : n.nData ≠ []) :
    (0 ≤ n.weight ∧ n.weight * 4 + n.dscale + 1 ≤ getWholeScale n) ∨
      (n.weight < 0 ∧ getWholeScale n = n.dscale) := by
  unfold getWholeScale
  obtain ⟨firstDigit, others, digits⟩ := List.exists_cons_of_ne_nil nonempty
  obtain ⟨present, -⟩ := decimalDigits_bounds (canonical.small firstDigit (by simp [digits]))
  rw [digits]
  dsimp only
  by_cases whole : 0 ≤ n.weight
  · rw [if_pos whole]
    exact .inl ⟨whole, by simp only [decDigits]; omega⟩
  · rw [if_neg whole]
    exact .inr ⟨not_le.mp whole, rfl⟩

/-- A numeric of few decimal digits has the short format. -/
theorem shortNumericDigits_eq (admitted : getWholeScale n ≤ maxInt128Digit) :
    n.shortNumericDigits = some n.nData := by
  have fits : numericCanBeShort n.dscale n.weight := by
    simp only [numericCanBeShort, numericShortDscaleMax, numericShortWeightMax, numericShortWeightMin]
    simp only [maxInt128Digit] at admitted
    by_cases nonempty : n.nData = []
    · have all : getWholeScale n = n.dscale := by simp only [getWholeScale, nonempty]
      have zero := (canonical.zero nonempty).1
      omega
    · have places := canonical.scaleDiff_gt nonempty
      have pos := List.length_pos_of_ne_nil nonempty
      simp only [NumericData.scaleDiff, decDigits] at places
      obtain ⟨whole, few⟩ | ⟨fraction, few⟩ := getWholeScale_cases canonical nonempty
      all_goals omega
  exact if_pos (isShort_of_headerIsShort canonical.normal (canonical.short fits))

theorem int64_of_digits {data : Nat} (shown : n.magnitude = (data : ℚ) / 10 ^ n.dscale)
    (admitted : getWholeScale n ≤ (maxInt64Digit : Int) - 1) :
    convertShortNumericToInt64Byscale n n.dscale = some (withSign n.negative data) := by
  have below : data < 10 ^ 18 := data_lt canonical shown (by simpa [maxInt64Digit] using admitted)
  have short := shortNumericDigits_eq canonical
    (admitted.trans (by norm_num [maxInt64Digit, maxInt128Digit]))
  have inside := @inSigned_withSign 64 data (by norm_num at below ⊢; omega) n.negative
  have adjusted : adjustScale (encodeDigits n.nData)
      (n.dscale - (if 0 < n.nData.length then (n.nData.length : Int) - n.weight - 1 else 0) *
        decDigits) = some (data : Int) := by
    simp only [maxInt64Digit] at admitted
    by_cases nonempty : n.nData = []
    · have all : getWholeScale n = n.dscale := by simp only [getWholeScale, nonempty]
      have zero : data = 0 := by
        rw [NumericData.magnitude, nonempty, digitsValue, eq_comm, div_eq_zero_iff] at shown
        exact_mod_cast shown.resolve_right (by positivity)
      rw [nonempty, List.length_nil, if_neg (by decide), zero_mul, sub_zero]
      exact adjustScale_up (by simp [zero]) (by rw [maxInt64Digit]; omega) (by omega)
    · have last : -4 < n.scaleDiff := canonical.scaleDiff_gt nonempty
      have pos := List.length_pos_of_ne_nil nonempty
      have few : n.nData.length ≤ 6 ∧ n.scaleDiff < 19 := by
        simp only [NumericData.scaleDiff, decDigits] at *
        obtain ⟨whole, few⟩ | ⟨fraction, few⟩ := getWholeScale_cases canonical nonempty
        all_goals omega
      rw [if_pos pos, encodeDigits_eq few.1]
      change adjustScale _ n.scaleDiff = _
      obtain ⟨places, diff | diff⟩ := Int.eq_nat_or_neg n.scaleDiff
      · rw [diff]
        exact adjustScale_up (NumericData.scaled_up shown diff) (by rw [maxInt64Digit]; omega)
          (by omega)
      · rw [diff]
        exact adjustScale_down (NumericData.scaled_down shown diff) (by rw [maxInt64Digit]; omega)
  unfold convertShortNumericToInt64Byscale
  rw [short, Option.bind_eq_bind, Option.bind_some]
  dsimp only
  rw [adjusted, Option.bind_eq_bind, Option.bind_some]
  exact signed_of_in inside

omit canonical in
/-- The last digit without the decimal places that it is filled up with. -/
theorem eq_of_partly {front last data remainder : Nat} (less : remainder ≤ 4)
    (whole : front * nbase + last = data * 10 ^ (4 - remainder)) :
    data = front * 10 ^ remainder + last / 10 ^ (4 - remainder) := by
  have positive : 0 < 10 ^ (4 - remainder) := by positivity
  have split : nbase = 10 ^ remainder * 10 ^ (4 - remainder) := by
    rw [nbase_eq, decDigits, ← pow_add, Nat.add_sub_cancel' less]
  have quotient := congrArg (· / 10 ^ (4 - remainder)) whole
  rw [Nat.mul_div_cancel _ positive, split, ← Nat.mul_assoc, Nat.add_comm,
    Nat.add_mul_div_right _ _ positive] at quotient
  omega

theorem int128_of_digits {data : Nat} (shown : n.magnitude = (data : ℚ) / 10 ^ n.dscale)
    (admitted : getWholeScale n ≤ maxInt128Digit) :
    convertShortNumericToInt128Byscale n n.dscale = some (withSign n.negative data) := by
  have below : data < 10 ^ 38 := data_lt canonical shown admitted
  have short := shortNumericDigits_eq canonical admitted
  unfold convertShortNumericToInt128Byscale
  rw [short, Option.bind_eq_bind, Option.bind_some]
  obtain nonempty | ⟨front, last, split⟩ := List.eq_nil_or_concat n.nData
  · have zero : data = 0 := by
      rw [NumericData.magnitude, nonempty, digitsValue, eq_comm, div_eq_zero_iff] at shown
      exact_mod_cast shown.resolve_right (by positivity)
    rw [nonempty, zero, withSign]
    simp
  · rw [List.concat_eq_append] at split
    have nonempty : n.nData ≠ [] := by simp [split]
    have hidden : -4 < n.scaleDiff := canonical.scaleDiff_gt nonempty
    have length : n.nData.length = front.length + 1 := by simp [split]
    have diff : n.scaleDiff = n.dscale - ((front.length : Int) - n.weight) * 4 := by
      rw [NumericData.scaleDiff, length, decDigits]
      push_cast
      ring
    have bound : (n.weight + 1) * 4 + n.dscale ≤ 41 := by
      rw [maxInt128Digit] at admitted
      obtain ⟨whole, few⟩ | ⟨fraction, few⟩ := getWholeScale_cases canonical nonempty
      all_goals omega
    have lastDigit : n.nData.getLast? = some last := by simp [split]
    have dropLast : n.nData.dropLast = front := by simp [split]
    have inRange : data < 2 ^ 127 := below.trans (by norm_num)
    rw [lastDigit, dropLast, length]
    dsimp only
    split_ifs with special
    · obtain ⟨-, partly, reached⟩ := special
      rw [decDigits] at partly reached
      have places : n.scaleDiff = -((4 - n.dscale % 4 : Nat) : Int) := by omega
      have whole := NumericData.scaled_down shown places
      rw [split, digitsNat_append, List.length_singleton, pow_one, digitsNat_singleton] at whole
      have filled := eq_of_partly (by omega) whole
      have raised : digitsNat front * 10 ^ (n.dscale % 4) < 2 ^ 127 :=
        ((Nat.le_add_right _ _).trans_eq filled.symm).trans_lt inRange
      have added : digitsNat front < 2 ^ 127 :=
        (Nat.le_mul_of_pos_right _ (by positivity)).trans_lt raised
      have sum : (digitsNat front : Int) * 10 ^ (n.dscale % 4) +
          (last : Int).tdiv (10 ^ (4 - n.dscale % 4)) = data := by
        rw [Int.tdiv_eq_ediv_of_nonneg (by positivity)]
        exact_mod_cast filled.symm
      rw [addDigits_eq (by omega) le_rfl (by rw [zero_add]; exact_mod_cast added),
        Option.bind_eq_bind, Option.bind_some, zero_add, decDigits, getScaleMultiplier,
        getScaleMultiplier,
        signed_of_in (inSigned_of_lt (by positivity) (by exact_mod_cast raised)), Option.bind_some,
        sum, signed_of_in (inSigned_of_lt (by positivity) (by exact_mod_cast inRange)),
        Option.bind_some,
        @adjustByDiffScale_eq n.negative data 0 _ (by omega) (by decide) (by simpa using inRange),
        pow_zero, mul_one]
    · have enough : 0 ≤ n.scaleDiff := by
        rw [decDigits] at special
        omega
      obtain ⟨places, places_eq⟩ := Int.eq_ofNat_of_zero_le enough
      have whole := NumericData.scaled_up shown places_eq
      have scaledIn : digitsNat n.nData * 10 ^ places < 2 ^ 127 := whole.trans_lt inRange
      have added : digitsNat n.nData < 2 ^ 127 :=
        (Nat.le_mul_of_pos_right _ (by positivity)).trans_lt scaledIn
      rw [addDigits_eq (by omega) le_rfl (by rw [zero_add]; exact_mod_cast added),
        Option.bind_eq_bind, Option.bind_some, zero_add,
        @adjustByDiffScale_eq n.negative _ places _ (by push_cast; omega)
          (by rw [maxInt128Digit]; omega) scaledIn, whole]

end Canonical

/-- Digits that stand for a number as a canonical numeric has them. -/
structure StrippedDigits (number : ℚ) (weight : Int) (digits : List Nat) : Prop where
  small : ∀ digit ∈ digits, digit < nbase
  leading : digits.head? ≠ some 0
  trailing : digits.getLast? ≠ some 0
  value : digitsValue weight digits = number

theorem preDataDigits_eq {preData : Nat} (nonzero : preData ≠ 0) (buf1 : List Nat) :
    preDataDigits preData buf1 = (Nat.digits nbase preData).reverse ++ buf1 := by
  have base : 1 < nbase := by decide
  induction preData, buf1 using preDataDigits.induct with
  | case1 preData buf1 filled more ih =>
    have first : filled = (preData % nbase) :: buf1 := by rw [Nat.mod_eq_sub_div_mul]
    rw [preDataDigits, if_pos more, ih more, Nat.digits_def' base (Nat.pos_of_ne_zero nonzero), first]
    simp
  | case2 preData buf1 last =>
    rw [preDataDigits, if_neg last, Nat.digits_def' base (Nat.pos_of_ne_zero nonzero),
      Nat.mod_eq_sub_div_mul, not_not.mp last]
    simp

theorem strippedDigits_preData {preData : Nat} (nonzero : preData ≠ 0) :
    preDataDigits preData [] ≠ [] ∧ (∀ digit ∈ preDataDigits preData [], digit < nbase) ∧
      (preDataDigits preData []).head? ≠ some 0 ∧
      digitsValue ((preDataDigits preData []).length - 1) (preDataDigits preData []) = preData := by
  have base : 1 < nbase := by decide
  have digits : nbase.digits preData ≠ [] := Nat.digits_ne_nil_iff_ne_zero.mpr nonzero
  rw [preDataDigits_eq nonzero, List.append_nil]
  refine ⟨by simpa using digits, ?_, ?_, ?_⟩
  · intro digit member
    exact Nat.digits_lt_base base (List.mem_reverse.mp member)
  · rw [List.head?_reverse, List.getLast?_eq_getLast_of_ne_nil digits]
    exact fun zero => Nat.getLast_digit_ne_zero nbase nonzero (Option.some.inj zero)
  · rw [digitsValue_eq, digitsNat, List.reverse_reverse, Nat.ofDigits_digits, sub_add_cancel,
      sub_self, zpow_zero, mul_one]

theorem digitsValue_shift (weight : Int) (digits : List Nat) :
    digitsValue (weight - 1) digits = digitsValue weight digits / nbase := by
  have exponent : weight - 1 + 1 - (digits.length : Int) = weight + 1 - digits.length - 1 := by ring
  rw [digitsValue_eq, digitsValue_eq, exponent, zpow_sub_one₀ (by norm_num [nbase]),
    ← mul_assoc, div_eq_mul_inv]

theorem postDataDigits_spec {multiplier : Nat → Nat} {postData resultScale : Nat}
    (table : ∀ index < resultScale, multiplier index = 10 ^ index)
    (below : postData < 10 ^ resultScale) :
    (∀ digit ∈ postDataDigits multiplier postData resultScale, digit < nbase) ∧
      (postDataDigits multiplier postData resultScale).getLast? ≠ some 0 ∧
      digitsValue (-1) (postDataDigits multiplier postData resultScale) = (postData : ℚ) / 10 ^ resultScale ∧
      (postDataDigits multiplier postData resultScale).length * 4 ≤ resultScale + 3 ∧
      (postDataDigits multiplier postData resultScale = [] → postData = 0) := by
  induction postData, resultScale using postDataDigits.induct multiplier with
  | case1 postData resultScale more ih =>
    have power := table (resultScale - decDigits) (by rw [decDigits] at *; omega)
    have positive : 0 < 10 ^ (resultScale - decDigits) := by positivity
    have filled : nbase * 10 ^ (resultScale - decDigits) = 10 ^ resultScale := by
      rw [nbase_eq, ← pow_add, Nat.add_sub_cancel' more.2]
    rw [power] at ih
    obtain ⟨small, trailing, value, few, absent⟩ :=
      ih (fun index less => table index (less.trans_le (Nat.sub_le _ _))) (Nat.mod_lt _ positive)
    rw [postDataDigits, if_pos more, power]
    refine ⟨?_, ?_, ?_, ?_, fun empty => absurd empty (List.cons_ne_nil _ _)⟩
    · intro digit member
      obtain rfl | other := List.mem_cons.mp member
      · exact Nat.div_lt_of_lt_mul (by rwa [Nat.mul_comm, filled])
      · exact small digit other
    · intro zero
      cases rest : postDataDigits multiplier (postData % 10 ^ (resultScale - decDigits))
          (resultScale - decDigits) with
      | nil =>
        rw [rest, List.getLast?_singleton, Option.some.injEq] at zero
        have whole := Nat.div_add_mod postData (10 ^ (resultScale - decDigits))
        rw [zero, absent rest, Nat.mul_zero] at whole
        exact more.1 whole.symm
      | cons next others =>
        rw [rest] at zero trailing
        exact trailing (by rwa [List.getLast?_cons_cons] at zero)
    · have parts : (postData : ℚ) =
          ((10 ^ (resultScale - decDigits) * (postData / 10 ^ (resultScale - decDigits)) +
            postData % 10 ^ (resultScale - decDigits) : Nat) : ℚ) := by
        rw [Nat.div_add_mod]
      have whole : (10 : ℚ) ^ resultScale = nbase * 10 ^ (resultScale - decDigits) := by
        exact_mod_cast filled.symm
      have base : (nbase : ℚ) ≠ 0 := by norm_num [nbase]
      rw [Nat.cast_add, Nat.cast_mul, Nat.cast_pow, Nat.cast_ofNat] at parts
      rw [digitsValue, digitsValue_shift, value, zpow_neg_one, whole]
      field_simp
      linarith
    · have four : 4 ≤ resultScale := more.2
      have less : resultScale - decDigits + 4 = resultScale := Nat.sub_add_cancel four
      rw [List.length_cons]
      omega
  | case2 postData resultScale short nonzero =>
    have few : resultScale < decDigits := not_le.mp fun enough => short ⟨nonzero, enough⟩
    have present : resultScale ≠ 0 := by
      rintro rfl
      rw [pow_zero] at below
      omega
    have power : (scaleMultipler (decDigits - resultScale)).toNat = 10 ^ (decDigits - resultScale) := by
      rw [scaleMultipler_of_lt (by simp only [decDigits, maxInt64Digit]; omega)]
      exact_mod_cast Int.toNat_natCast (10 ^ (decDigits - resultScale))
    have filled : 10 ^ resultScale * 10 ^ (decDigits - resultScale) = nbase := by
      rw [nbase_eq, ← pow_add, Nat.add_sub_cancel' few.le]
    have positive : 0 < 10 ^ (decDigits - resultScale) := by positivity
    rw [postDataDigits, if_neg short, if_pos nonzero, power]
    refine ⟨?_, ?_, ?_, ?_, fun empty => absurd empty (List.cons_ne_nil _ _)⟩
    · intro digit member
      rw [List.mem_singleton.mp member, ← filled]
      exact Nat.mul_lt_mul_of_pos_right below positive
    · simp only [List.getLast?_singleton, ne_eq, Option.some.injEq]
      positivity
    · rw [digitsValue, digitsValue, add_zero, zpow_neg_one, ← filled]
      push_cast
      field_simp
    · rw [List.length_singleton]
      omega
  | case3 postData resultScale short zero =>
    have gone : postData = 0 := not_not.mp zero
    rw [postDataDigits, if_neg short, if_neg zero, gone]
    simp [digitsValue]

theorem skipZeros_spec {digits : List Nat} (small : ∀ digit ∈ digits, digit < nbase)
    (trailing : digits.getLast? ≠ some 0) (weight : Int) :
    StrippedDigits (digitsValue (weight - 1) digits) (skipZeros weight digits).1
        (skipZeros weight digits).2 ∧
      (skipZeros weight digits).1 ≤ weight ∧
      weight - digits.length ≤ (skipZeros weight digits).1 := by
  induction digits generalizing weight with
  | nil =>
    refine ⟨⟨small, by simp [skipZeros], by simp [skipZeros], rfl⟩, le_rfl, ?_⟩
    simp [skipZeros]
  | cons digit digits ih =>
    rw [List.length_cons, skipZeros]
    by_cases nonzero : digit ≠ 0
    · rw [if_pos nonzero]
      exact ⟨⟨small, by simpa using nonzero, trailing, rfl⟩, by simp, by push_cast; omega⟩
    · have others : digits.getLast? ≠ some 0 := by
        intro zero
        cases digits with
        | nil => simp at zero
        | cons next digits => exact trailing (by rwa [List.getLast?_cons_cons])
      obtain ⟨stripped, most, least⟩ :=
        ih (fun digit member => small digit (List.mem_cons_of_mem _ member)) others (weight - 1)
      rw [if_neg nonzero, digitsValue, not_not.mp nonzero, Nat.cast_zero, zero_mul, zero_add]
      exact ⟨stripped, by omega, by push_cast; omega⟩

theorem strippedDigits_rdropWhile {number : ℚ} {weight : Int} {digits : List Nat}
    (small : ∀ digit ∈ digits, digit < nbase) (leading : digits.head? ≠ some 0)
    (value : digitsValue weight digits = number) :
    StrippedDigits number weight (digits.rdropWhile (· == 0)) := by
  induction digits using List.reverseRecOn with
  | nil => exact ⟨small, leading, by simp, value⟩
  | append_singleton digits digit ih =>
    by_cases zero : digit = 0
    · rw [List.rdropWhile_concat_pos _ _ _ (by simpa using zero)]
      rw [digitsValue_append, zero] at value
      refine ih (fun other member => small other (List.mem_append_left _ member)) ?_ ?_
      · cases digits with
        | nil => simp
        | cons first digits => simpa using leading
      · simpa [digitsValue] using value
    · rw [List.rdropWhile_concat_neg _ _ _ (by simpa using zero)]
      exact ⟨small, leading, by simpa using zero, value⟩

theorem splitDigits_spec {multiplier : Nat → Nat} {bufDigits uval scale : Nat}
    (table : ∀ index < scale, multiplier index = 10 ^ index) (few : uval < nbase ^ bufDigits)
    (fine : scale ≤ bufDigits * 4) :
    ∃ weight digits, splitDigits multiplier bufDigits uval scale = some (weight, digits) ∧
      StrippedDigits ((uval : ℚ) / 10 ^ scale) weight digits ∧ weight ≤ bufDigits ∧
      -(bufDigits : Int) ≤ weight := by
  have below : uval % 10 ^ scale < 10 ^ scale := Nat.mod_lt _ (by positivity)
  have parts : (uval : ℚ) / 10 ^ scale =
      (uval / 10 ^ scale : Nat) + (uval % 10 ^ scale : Nat) / 10 ^ scale := by
    have whole : (uval : ℚ) = ((10 ^ scale * (uval / 10 ^ scale) + uval % 10 ^ scale : Nat) : ℚ) := by
      rw [Nat.div_add_mod]
    rw [Nat.cast_add, Nat.cast_mul, Nat.cast_pow, Nat.cast_ofNat] at whole
    field_simp
    linarith
  obtain ⟨small, trailing, value, length, absent⟩ := postDataDigits_spec table below
  unfold splitDigits
  dsimp only
  by_cases pre : uval / 10 ^ scale = 0
  · rw [if_neg (not_not.mpr pre), if_pos ⟨Nat.zero_le _, by omega⟩, if_neg (by simp)]
    obtain ⟨stripped, most, least⟩ := skipZeros_spec small trailing 0
    rw [zero_sub, value] at stripped
    refine ⟨_, _, rfl, ?_, by omega, by omega⟩
    rwa [parts, pre, Nat.cast_zero, zero_add]
  · obtain ⟨present, smallPre, leading, valuePre⟩ := strippedDigits_preData pre
    have lengthPre : (preDataDigits (uval / 10 ^ scale) []).length ≤ bufDigits := by
      rw [preDataDigits_eq pre, List.append_nil, List.length_reverse]
      exact (Nat.digits_length_le_iff (by decide) _).mpr ((Nat.div_le_self _ _).trans_lt few)
    have positive := List.length_pos_of_ne_nil present
    rw [if_pos pre, if_pos ⟨lengthPre, by omega⟩, if_pos present]
    by_cases post : postDataDigits multiplier (uval % 10 ^ scale) scale = []
    · rw [if_neg (not_not.mpr post)]
      refine ⟨_, _, rfl, strippedDigits_rdropWhile smallPre leading ?_, by omega, by omega⟩
      rw [valuePre, parts, absent post, Nat.cast_zero, zero_div, add_zero]
    · rw [if_pos post]
      refine ⟨_, _, rfl, ⟨?_, ?_, ?_, ?_⟩, by omega, by omega⟩
      · exact fun digit member => (List.mem_append.mp member).elim (smallPre digit) (small digit)
      · rwa [List.head?_append_of_ne_nil _ present]
      · rwa [List.getLast?_append_of_ne_nil _ post]
      · have next : ((preDataDigits (uval / 10 ^ scale) []).length : Int) - 1 -
            (preDataDigits (uval / 10 ^ scale) []).length = -1 := by omega
        rw [digitsValue_append, valuePre, next, value, parts]

theorem canonical_shortNumeric {negative : Bool} {uval scale : Nat} {weight : Int}
    {digits : List Nat} (fits : numericCanBeShort scale weight) (nonzero : uval ≠ 0)
    (stripped : StrippedDigits ((uval : ℚ) / 10 ^ scale) weight digits) :
    (shortNumeric negative scale weight digits).Canonical ∧
      (shortNumeric negative scale weight digits).value = rational (withSign negative uval) scale := by
  obtain ⟨normal, short, -⟩ := @shortNumeric_header negative scale weight digits fits
  have magnitude : (shortNumeric negative scale weight digits).magnitude = (uval : ℚ) / 10 ^ scale := by
    rw [NumericData.magnitude, shortNumeric_weight fits]
    exact stripped.value
  refine ⟨⟨normal, stripped.small, stripped.leading, stripped.trailing, ?_, fun _ => short, ?_⟩, ?_⟩
  · intro empty
    have digits_eq : digits = [] := empty
    have zero := stripped.value
    rw [digits_eq, digitsValue, eq_comm, div_eq_zero_iff] at zero
    exact absurd (by exact_mod_cast zero.resolve_right (by positivity)) nonzero
  · rw [shortNumeric_dscale fits]
    exact ⟨uval, magnitude⟩
  · rw [← NumericData.rational_withSign magnitude, shortNumeric_negative fits]

theorem canonical_zero {scale : Nat} (fits : numericCanBeShort scale 0) :
    (shortNumeric false scale 0 []).Canonical ∧ (shortNumeric false scale 0 []).value = 0 := by
  obtain ⟨normal, short, -⟩ := @shortNumeric_header false scale 0 [] fits
  have magnitude : (shortNumeric false scale 0 []).magnitude = 0 := rfl
  refine ⟨⟨normal, by simp [shortNumeric], by simp [shortNumeric], by simp [shortNumeric], ?_,
    fun _ => short, 0, by simp [magnitude]⟩, ?_⟩
  · exact fun _ => ⟨shortNumeric_weight fits, shortNumeric_negative fits⟩
  · rw [NumericData.value, shortNumeric_negative fits, magnitude, if_neg (by decide)]

/-- What the digits made of an integer are. -/
def Converts (num : BiNumeric) (n : NumericData) : Prop :=
  n.Canonical ∧ n.value = num.rational ∧ n.dscale = num.scale

theorem convertIntToNumeric_spec {multiplier : Nat → Nat} {bits bufDigits scale : Nat} {data : Int}
    (inside : InSigned bits data) (sized : 0 < bits)
    (table : ∀ index < scale, multiplier index = 10 ^ index)
    (few : 2 ^ (bits - 1) < nbase ^ bufDigits) (fine : scale ≤ bufDigits * 4)
    (short : bufDigits ≤ 10) :
    ∃ n, convertIntToNumeric multiplier bits bufDigits data scale = some n ∧ n.Canonical ∧
      n.value = rational data scale ∧ n.dscale = scale := by
  have fits : ∀ weight : Int, weight ≤ bufDigits → -(bufDigits : Int) ≤ weight →
      numericCanBeShort scale weight := by
    simp only [numericCanBeShort, numericShortDscaleMax, numericShortWeightMax, numericShortWeightMin]
    omega
  unfold convertIntToNumeric
  rw [absoluteVal_fwrapv inside sized, Option.bind_eq_bind, Option.bind_some]
  by_cases zero : data = 0
  · obtain ⟨canonical, value⟩ := canonical_zero (fits 0 (by omega) (by omega))
    rw [if_pos (by simpa using zero)]
    refine ⟨_, rfl, canonical, ?_, shortNumeric_dscale (fits 0 (by omega) (by omega))⟩
    rw [value, zero, rational, Int.cast_zero, zero_div]
  · have nonzero : data.natAbs ≠ 0 := Int.natAbs_ne_zero.mpr zero
    have below : data.natAbs < nbase ^ bufDigits := by
      have most := abs_le_of_inSigned inside
      rw [Int.abs_eq_natAbs] at most
      exact (by exact_mod_cast most : data.natAbs ≤ 2 ^ (bits - 1)).trans_lt few
    obtain ⟨weight, digits, split, stripped, most, least⟩ := splitDigits_spec table below fine
    obtain ⟨canonical, value⟩ :=
      @canonical_shortNumeric (decide (data < 0)) _ _ _ _ (fits weight most least) nonzero stripped
    have sign : withSign (decide (data < 0)) data.natAbs = data := by
      unfold withSign
      by_cases negative : data < 0
      · rw [if_pos (by simpa using negative)]
        omega
      · rw [if_neg (by simpa using negative)]
        omega
    rw [if_neg nonzero, split, Option.bind_eq_bind, Option.bind_some]
    rw [sign] at value
    exact ⟨_, rfl, canonical, value, shortNumeric_dscale (fits weight most least)⟩

/-- Every integer with its scale is converted to its digits. -/
theorem makeNumericNormal_converts (num : BiNumeric) :
    ∃ n, makeNumericNormal num = some n ∧ Converts num n := by
  cases num with
  | bi64 num =>
    have admissible : num.scale ≤ 19 := num.admissible
    refine convertIntToNumeric_spec num.inRange (by decide) ?_ (by decide)
      (by simp only [decDigits]; omega) (by decide)
    intro index less
    rw [scaleMultipler_of_lt (by rw [maxInt64Digit]; omega)]
    exact_mod_cast Int.toNat_natCast (10 ^ index)
  | bi128 num =>
    have admissible : num.scale ≤ 38 := num.admissible
    refine convertIntToNumeric_spec num.inRange (by decide) ?_ (by decide)
      (by simp only [decDigits]; omega) (by decide)
    intro index less
    rw [getScaleMultiplier]
    exact_mod_cast Int.toNat_natCast (10 ^ index)

theorem tryConvert_rational {enableFastNumeric : Bool} {n : NumericData} (canonical : n.Canonical) :
    ∃ result, tryConvertNumericNormalToFast enableFastNumeric (.normal n) = some result ∧
      ∀ num, result = .bi num → num.rational = n.value ∧ num.scale = n.dscale := by
  obtain ⟨data, shown⟩ := canonical.displayed
  have value := NumericData.rational_withSign shown
  have least : (n.dscale : Int) ≤ getWholeScale n := by
    by_cases nonempty : n.nData = []
    · simp only [getWholeScale, nonempty, le_refl]
    · obtain ⟨whole, few⟩ | ⟨fraction, few⟩ := getWholeScale_cases canonical nonempty
      all_goals omega
  cases enableFastNumeric with
  | false => exact ⟨_, rfl, fun num other => absurd other (by simp)⟩
  | true =>
    unfold tryConvertNumericNormalToFast
    dsimp only
    rw [if_neg (by decide)]
    by_cases narrow : getWholeScale n ≤ (maxInt64Digit : Int) - 1
    · have scale : n.dscale ≤ maxInt64Digit := by omega
      have below := @data_lt n canonical data 18 shown (by simpa [maxInt64Digit] using narrow)
      have inside := @inSigned_withSign 64 data (by norm_num at below ⊢; omega) n.negative
      rw [if_pos narrow, int64_of_digits canonical shown narrow, Option.bind_eq_bind,
        Option.bind_some, makeBi, dif_pos ⟨inside, scale⟩, Option.bind_eq_bind, Option.bind_some]
      refine ⟨_, rfl, ?_⟩
      rintro num ⟨⟩
      exact ⟨value, rfl⟩
    · by_cases wide : getWholeScale n ≤ maxInt128Digit
      · have scale : n.dscale ≤ maxInt128Digit := by omega
        have below := data_lt canonical shown wide
        have inside := @inSigned_withSign 128 data (below.trans (by decide)) n.negative
        rw [if_neg narrow, if_pos wide, int128_of_digits canonical shown wide,
          Option.bind_eq_bind, Option.bind_some, makeBi, dif_pos ⟨inside, scale⟩,
          Option.bind_eq_bind, Option.bind_some]
        refine ⟨_, rfl, ?_⟩
        rintro num ⟨⟩
        exact ⟨value, rfl⟩
      · rw [if_neg narrow, if_neg wide]
        exact ⟨_, rfl, fun num other => absurd other (by simp)⟩

/-- A numeric that is converted and converted back is the same number with the same display scale,
in canonical digits, and so is every integer with its scale. -/
theorem tryConvert_makeNumericNormal {enableFastNumeric : Bool} {n : NumericData} (canonical : n.Canonical) :
    (∃ result, tryConvertNumericNormalToFast enableFastNumeric (.normal n) = some result ∧
      ∀ num, result = .bi num → ∃ back, makeNumericNormal num = some back ∧
        back.value = n.value ∧ back.dscale = n.dscale ∧ back.Canonical) ∧
      ∀ num : BiNumeric, ∃ back, makeNumericNormal num = some back ∧ back.value = num.rational ∧
        back.dscale = num.scale ∧ back.Canonical := by
  obtain ⟨result, converted, same⟩ := @tryConvert_rational enableFastNumeric n canonical
  refine ⟨⟨result, converted, fun num fast => ?_⟩, fun num => ?_⟩
  · obtain ⟨value, scale⟩ := same num fast
    obtain ⟨back, made, valid, backValue, backScale⟩ := makeNumericNormal_converts num
    exact ⟨back, made, backValue.trans value, backScale.trans scale, valid⟩
  · obtain ⟨back, made, valid, backValue, backScale⟩ := makeNumericNormal_converts num
    exact ⟨back, made, backValue, backScale, valid⟩

/-- -12.340, whose last digit has a decimal place beyond the display scale. -/
theorem tryConvert_makeNumericNormal_sample :
    ∃ num back, tryConvertNumericNormalToFast true (.normal (shortNumeric true 3 0 [12, 3400])) =
        some (.bi num) ∧ makeNumericNormal num = some back ∧ back.value = -12.34 ∧
      back.dscale = 3 ∧ back.Canonical := by
  have fits : numericCanBeShort 3 0 := by decide
  have digits : StrippedDigits ((12340 : Nat) / 10 ^ 3) 0 [12, 3400] :=
    ⟨by decide, by decide, by decide, by norm_num [digitsValue, nbase]⟩
  obtain ⟨canonical, value⟩ := @canonical_shortNumeric true 12340 3 0 _ fits (by decide) digits
  obtain ⟨⟨result, converted, back⟩, -⟩ := @tryConvert_makeNumericNormal true _ canonical
  obtain ⟨num, fast⟩ : ∃ num, tryConvertNumericNormalToFast true
      (.normal (shortNumeric true 3 0 [12, 3400])) = some (.bi num) := ⟨_, rfl⟩
  obtain ⟨n, made, same, dscale, valid⟩ := back num (Option.some.inj (converted.symm.trans fast))
  refine ⟨num, n, fast, made, ?_, dscale.trans (shortNumeric_dscale fits), valid⟩
  rw [same, value, rational, withSign]
  norm_num

end OpenGauss.BigInteger
