import OpenGauss.BigInteger.Arithmetic
import OpenGauss.Lib.NumberDigits

namespace OpenGauss.BigInteger

open Lib

def nbase : Nat := 10000

def decDigits : Nat := 4

def numericMinSigDigits : Int := 16

def numericMinDisplayScale : Int := 0

def numericMaxDisplayScale : Int := 1000

/-- The magnitude of a numeric: digits of base `NBASE`, the first of them with this weight. -/
structure NumericVar where
  weight : Int
  digits : List Nat
  dscale : Nat
  small : ∀ digit ∈ digits, digit < nbase

def digitsValue : Int → List Nat → ℚ
  | _, [] => 0
  | weight, digit :: digits => digit * (nbase : ℚ) ^ weight + digitsValue (weight - 1) digits

namespace NumericVar

def magnitude (var : NumericVar) : ℚ := digitsValue var.weight var.digits

/-- The actual weight and first digit, both 0 if the numeric is. -/
def firstDigit : Int → List Nat → Int × Nat
  | _, [] => (0, 0)
  | weight, digit :: digits => if digit ≠ 0 then (weight, digit) else firstDigit (weight - 1) digits

end NumericVar

def selectDivScale (var1 var2 : NumericVar) : Int :=
  let (weight1, firstdigit1) := NumericVar.firstDigit var1.weight var1.digits
  let (weight2, firstdigit2) := NumericVar.firstDigit var2.weight var2.digits
  let qweight := if firstdigit1 ≤ firstdigit2 then weight1 - weight2 - 1 else weight1 - weight2
  let rscale := numericMinSigDigits - qweight * decDigits
  min (max (max (max rscale var1.dscale) var2.dscale) numericMinDisplayScale) numericMaxDisplayScale

theorem digitsValue_bounds {weight : Int} {digits : List Nat} (small : ∀ digit ∈ digits, digit < nbase) :
    0 ≤ digitsValue weight digits ∧ digitsValue weight digits < (nbase : ℚ) ^ (weight + 1) := by
  induction digits generalizing weight with
  | nil =>
    refine ⟨le_rfl, zpow_pos ?_ _⟩
    norm_num [nbase]
  | cons digit digits ih =>
    obtain ⟨first, others⟩ := List.forall_mem_cons.mp small
    obtain ⟨nonneg, below⟩ := @ih (weight - 1) others
    have power : (0 : ℚ) < (nbase : ℚ) ^ weight := zpow_pos (by norm_num [nbase]) _
    have whole : (nbase : ℚ) ^ (weight + 1) = nbase * (nbase : ℚ) ^ weight := by
      rw [zpow_add_one₀ (by norm_num [nbase]), mul_comm]
    have digitBound : (digit : ℚ) + 1 ≤ nbase := by exact_mod_cast first
    rw [sub_add_cancel] at below
    rw [digitsValue, whole]
    refine ⟨by positivity, ?_⟩
    calc digit * (nbase : ℚ) ^ weight + digitsValue (weight - 1) digits
        < (digit + 1) * (nbase : ℚ) ^ weight := by rw [add_mul, one_mul]; linarith
      _ ≤ nbase * (nbase : ℚ) ^ weight := mul_le_mul_of_nonneg_right digitBound power.le

/-- The digits show the weight and the first digit of the number. -/
theorem leadingDigit_firstDigit {weight : Int} {digits : List Nat}
    (small : ∀ digit ∈ digits, digit < nbase) :
    LeadingDigit nbase (digitsValue weight digits) (NumericVar.firstDigit weight digits).1
      (NumericVar.firstDigit weight digits).2 := by
  induction digits generalizing weight with
  | nil => exact .of_zero nbase
  | cons digit digits ih =>
    obtain ⟨first, others⟩ := List.forall_mem_cons.mp small
    rw [digitsValue, NumericVar.firstDigit]
    by_cases nonzero : digit ≠ 0
    · obtain ⟨nonneg, below⟩ := @digitsValue_bounds (weight - 1) digits others
      rw [sub_add_cancel] at below
      rw [if_pos nonzero]
      refine .of_bounds (by decide) (Nat.pos_of_ne_zero nonzero) first ?_ ?_
      · linarith
      · rw [add_mul, one_mul]
        linarith
    · obtain rfl := not_not.mp nonzero
      rw [if_neg nonzero, Nat.cast_zero, zero_mul, zero_add]
      exact ih others

/-- The loop over the part before the decimal point: the first digit and the number of digits. -/
def preDigits (preData digits : Nat) : Nat × Nat :=
  if preData / nbase = 0 then (preData % nbase, digits + 1)
  else preDigits (preData / nbase) (digits + 1)
termination_by preData
decreasing_by
  rename_i more
  simp only [nbase] at *
  omega

/-- The loop over the part behind it, and the digit that is filled up: weight and first digit. -/
def postDigits (postData resultScale digits : Nat) : Int × Nat :=
  if decDigits ≤ resultScale ∧ postData ≠ 0 then
    let tmpData := postData / 10 ^ (resultScale - decDigits)
    if tmpData ≠ 0 then (-((digits : Int) + 1), tmpData)
    else
      postDigits (postData % 10 ^ (resultScale - decDigits)) (resultScale - decDigits) (digits + 1)
  else (-((digits : Int) + 1), postData * 10 ^ (decDigits - resultScale))
termination_by resultScale
decreasing_by
  have four : decDigits = 4 := rfl
  omega

def getBiWeightDigit (val scale : Nat) : Int × Nat :=
  let preData := val / 10 ^ scale
  let postData := val % 10 ^ scale
  if preData ≠ 0 then
    let (firstDigit, digits) := preDigits preData 0
    ((digits : Int) - 1, firstDigit)
  else if postData ≠ 0 then postDigits postData scale 0
  else (0, 0)

theorem preDigits_spec {preData : Nat} (nonzero : preData ≠ 0) (digits : Nat) :
    ∃ weight firstDigit, preDigits preData digits = (firstDigit, digits + weight + 1) ∧
      0 < firstDigit ∧ firstDigit < nbase ∧ firstDigit * nbase ^ weight ≤ preData ∧
      preData < (firstDigit + 1) * nbase ^ weight := by
  have positive : 0 < nbase := by decide
  induction preData, digits using preDigits.induct with
  | case1 preData digits last =>
    have small : preData < nbase := (Nat.div_eq_zero_iff_lt positive).mp last
    refine ⟨0, preData, ?_, Nat.pos_of_ne_zero nonzero, small, by simp, by simp⟩
    rw [preDigits, if_pos last, Nat.mod_eq_of_lt small, Nat.add_zero]
  | case2 preData digits more ih =>
    obtain ⟨weight, firstDigit, result, present, small, low, high⟩ := ih more
    refine ⟨weight + 1, firstDigit, ?_, present, small, ?_, ?_⟩
    · rw [preDigits, if_neg more, result, Prod.mk.injEq]
      exact ⟨rfl, by omega⟩
    · rw [pow_succ, ← Nat.mul_assoc]
      exact (Nat.le_div_iff_mul_le positive).mp low
    · rw [pow_succ, ← Nat.mul_assoc]
      exact (Nat.div_lt_iff_lt_mul positive).mp high

/-- The digit that stands right behind the decimal point. -/
theorem leadingDigit_fraction {number : ℚ} {digit : Nat} (pos : 0 < digit) (small : digit < nbase)
    (low : digit ≤ number * nbase) (high : number * nbase < digit + 1) :
    LeadingDigit nbase number (-1) digit := by
  have positive : (0 : ℚ) < nbase := by norm_num [nbase]
  refine .of_bounds (by decide) pos small ?_ ?_
  · rw [zpow_neg_one, ← div_eq_mul_inv, div_le_iff₀ positive]
    exact low
  · rw [zpow_neg_one, ← div_eq_mul_inv, lt_div_iff₀ positive]
    exact high

theorem nbase_eq : nbase = 10 ^ decDigits := rfl

/-- One digit further, the loop goes on with a number that is less than the base would fill. -/
theorem fraction_shift {resultScale : Nat} (enough : decDigits ≤ resultScale) (postData : Nat) :
    (postData : ℚ) / 10 ^ resultScale * nbase = postData / 10 ^ (resultScale - decDigits) := by
  have split : (10 : ℚ) ^ resultScale = 10 ^ (resultScale - decDigits) * nbase := by
    rw [nbase_eq, Nat.cast_pow, Nat.cast_ofNat, ← pow_add, Nat.sub_add_cancel enough]
  have positive : (nbase : ℚ) ≠ 0 := by norm_num [nbase]
  rw [split]
  field_simp

theorem postDigits_spec {postData resultScale : Nat} (nonzero : postData ≠ 0)
    (below : postData < 10 ^ resultScale) (digits : Nat) :
    LeadingDigit nbase ((postData : ℚ) / 10 ^ resultScale)
      ((postDigits postData resultScale digits).1 + digits)
      (postDigits postData resultScale digits).2 := by
  induction postData, resultScale, digits using postDigits.induct with
  | case1 postData resultScale digits more tmpData found =>
    have positive : 0 < 10 ^ (resultScale - decDigits) := by positivity
    have small : tmpData < nbase := by
      apply (Nat.div_lt_iff_lt_mul positive).mpr
      rw [nbase_eq, ← pow_add, Nat.add_sub_cancel' more.1]
      exact below
    rw [postDigits, if_pos more]
    dsimp only
    rw [if_pos found]
    have weight : -((digits : Int) + 1) + digits = -1 := by omega
    rw [weight]
    refine leadingDigit_fraction (Nat.pos_of_ne_zero found) small ?_ ?_
    · rw [fraction_shift more.1, le_div_iff₀ (by positivity)]
      exact_mod_cast Nat.div_mul_le_self postData (10 ^ (resultScale - decDigits))
    · rw [fraction_shift more.1, div_lt_iff₀ (by positivity)]
      have above := Nat.lt_mul_div_succ postData positive
      rw [Nat.mul_comm] at above
      exact_mod_cast above
  | case2 postData resultScale digits more tmpData none ih =>
    have rest : postData < 10 ^ (resultScale - decDigits) :=
      (Nat.div_eq_zero_iff_lt (by positivity)).mp (not_not.mp none)
    have same : postData % 10 ^ (resultScale - decDigits) = postData := Nat.mod_eq_of_lt rest
    rw [postDigits, if_pos more]
    dsimp only
    rw [if_neg none, same]
    rw [same] at ih
    have found := (ih nonzero rest).div_base (by positivity)
    rw [← fraction_shift more.1, mul_div_cancel_right₀ _ (by norm_num [nbase])] at found
    have weight : ∀ last : Int, last + ((digits + 1 : Nat) : Int) - 1 = last + digits := by omega
    rwa [weight] at found
  | case3 postData resultScale digits last =>
    have short : resultScale < decDigits := by
      by_contra enough
      exact last ⟨not_lt.mp enough, nonzero⟩
    have whole : nbase = 10 ^ resultScale * 10 ^ (decDigits - resultScale) := by
      rw [nbase_eq, ← pow_add, Nat.add_sub_cancel' short.le]
    have exact : (postData : ℚ) / 10 ^ resultScale * nbase =
        (postData * 10 ^ (decDigits - resultScale) : Nat) := by
      rw [whole]
      push_cast
      field_simp
    have weight : -((digits : Int) + 1) + digits = -1 := by omega
    rw [postDigits, if_neg last, weight]
    refine leadingDigit_fraction (by positivity) ?_ exact.ge (exact.trans_lt (lt_add_one _))
    rw [whole]
    exact Nat.mul_lt_mul_of_pos_right below (by positivity)

theorem leadingDigit_getBiWeightDigit (val scale : Nat) :
    LeadingDigit nbase ((val : ℚ) / 10 ^ scale) (getBiWeightDigit val scale).1
      (getBiWeightDigit val scale).2 := by
  have positive : 0 < 10 ^ scale := by positivity
  unfold getBiWeightDigit
  dsimp only
  by_cases pre : val / 10 ^ scale = 0
  · have below : val < 10 ^ scale := (Nat.div_eq_zero_iff_lt positive).mp pre
    rw [if_neg (not_not.mpr pre), Nat.mod_eq_of_lt below]
    by_cases post : val = 0
    · rw [if_neg (not_not.mpr post), post, Nat.cast_zero, zero_div]
      exact .of_zero nbase
    · rw [if_pos post]
      simpa using postDigits_spec post below 0
  · obtain ⟨weight, firstDigit, result, present, small, low, high⟩ := preDigits_spec pre 0
    have index : (((0 + weight + 1 : Nat) : Int) - 1) = weight := by omega
    rw [if_pos pre, result]
    dsimp only
    rw [index]
    refine .of_bounds (by decide) present small ?_ ?_
    · rw [zpow_natCast, le_div_iff₀ (by positivity)]
      exact_mod_cast (Nat.le_div_iff_mul_le positive).mp low
    · rw [zpow_natCast, div_lt_iff₀ (by positivity)]
      exact_mod_cast (Nat.div_lt_iff_lt_mul positive).mp high

/-- The integer and the digits of one number show the same weight and the same first digit. -/
theorem getBiWeightDigit_eq {var : NumericVar} {val scale : Nat}
    (same : var.magnitude = (val : ℚ) / 10 ^ scale) :
    getBiWeightDigit val scale = NumericVar.firstDigit var.weight var.digits := by
  have digits := @leadingDigit_firstDigit var.weight var.digits var.small
  change LeadingDigit nbase var.magnitude _ _ at digits
  rw [same] at digits
  obtain ⟨weight, digit⟩ := (leadingDigit_getBiWeightDigit val scale).unique digits
  exact Prod.ext weight digit

end OpenGauss.BigInteger
