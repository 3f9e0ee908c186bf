import Mathlib.Tactic
import Mathlib.Data.Rat.Floor

/-! The first digit of a number in a base and its weight, and rounding half away from zero. -/

namespace OpenGauss.Lib

/-- A digit other than 0 with the weight that it has in the number; zero has none and counts as a
digit 0 of weight 0. -/
structure LeadingDigit (base : Nat) (number : ℚ) (weight : Int) (digit : Nat) : Prop where
  zero : number = 0 → weight = 0 ∧ digit = 0
  small : number ≠ 0 → 0 < digit ∧ digit < base
  low : number ≠ 0 → digit * (base : ℚ) ^ weight ≤ number
  high : number ≠ 0 → number < (digit + 1) * (base : ℚ) ^ weight

namespace LeadingDigit

variable {base digit other : Nat} {number : ℚ} {weight lighter : Int}

theorem of_zero (base : Nat) : LeadingDigit base 0 0 0 where
  zero _ := ⟨rfl, rfl⟩
  small nonzero := absurd rfl nonzero
  low nonzero := absurd rfl nonzero
  high nonzero := absurd rfl nonzero

theorem of_bounds (positive : 0 < base) (pos : 0 < digit) (small : digit < base)
    (low : digit * (base : ℚ) ^ weight ≤ number)
    (high : number < (digit + 1) * (base : ℚ) ^ weight) :
    LeadingDigit base number weight digit where
  zero none := by
    have power : (0 : ℚ) < (base : ℚ) ^ weight := zpow_pos (by exact_mod_cast positive) weight
    have above : (0 : ℚ) < digit * (base : ℚ) ^ weight := mul_pos (by exact_mod_cast pos) power
    rw [none] at low
    exact absurd low (not_le.mpr above)
  small _ := ⟨pos, small⟩
  low _ := low
  high _ := high

variable (found : LeadingDigit base number weight digit)
include found

/-- A heavier digit would make the number greater. -/
theorem weight_le (others : LeadingDigit base number lighter other) (nonzero : number ≠ 0) :
    weight ≤ lighter := by
  by_contra heavier
  obtain ⟨present, below⟩ := found.small nonzero
  obtain ⟨_, small⟩ := others.small nonzero
  have positive : 0 < base := Nat.zero_lt_of_lt below
  have two : (1 : ℚ) ≤ base := by exact_mod_cast positive
  have nonneg : (base : ℚ) ≠ 0 := by positivity
  have reached : (base : ℚ) ^ weight ≤ number := by
    have first := found.low nonzero
    have one : (1 : ℚ) ≤ digit := by exact_mod_cast present
    exact (le_mul_of_one_le_left (zpow_nonneg (by positivity) _) one).trans first
  have step : (base : ℚ) ^ (lighter + 1) ≤ (base : ℚ) ^ weight :=
    zpow_le_zpow_right₀ two (by omega)
  have whole : ((other : ℚ) + 1) * (base : ℚ) ^ lighter ≤ (base : ℚ) ^ (lighter + 1) := by
    rw [zpow_add_one₀ nonneg, mul_comm]
    exact mul_le_mul_of_nonneg_left (by exact_mod_cast small) (zpow_nonneg (by positivity) _)
  exact absurd (others.high nonzero) (not_lt.mpr (whole.trans (step.trans reached)))

theorem unique (others : LeadingDigit base number lighter other)
    : weight = lighter ∧ digit = other := by
  by_cases zero : number = 0
  · obtain ⟨rfl, rfl⟩ := found.zero zero
    obtain ⟨rfl, rfl⟩ := others.zero zero
    exact ⟨rfl, rfl⟩
  · obtain rfl := le_antisymm (found.weight_le others zero) (others.weight_le found zero)
    have positive : 0 < base := Nat.zero_lt_of_lt (found.small zero).2
    have power : (0 : ℚ) < (base : ℚ) ^ weight := zpow_pos (by exact_mod_cast positive) weight
    have below := lt_of_mul_lt_mul_right ((found.low zero).trans_lt (others.high zero)) power.le
    have above := lt_of_mul_lt_mul_right ((others.low zero).trans_lt (found.high zero)) power.le
    have first : digit < other + 1 := by exact_mod_cast below
    have second : other < digit + 1 := by exact_mod_cast above
    exact ⟨rfl, by omega⟩

/-- Division by the base makes the digit one lighter. -/
theorem div_base (nonzero : number ≠ 0) :
    LeadingDigit base (number / base) (weight - 1) digit := by
  obtain ⟨present, small⟩ := found.small nonzero
  have positive : 0 < base := Nat.zero_lt_of_lt small
  have base0 : (0 : ℚ) < base := by exact_mod_cast positive
  have power : (base : ℚ) ^ (weight - 1) = (base : ℚ) ^ weight / base :=
    zpow_sub_one₀ base0.ne' weight
  refine of_bounds positive present small ?_ ?_
  · rw [power, ← mul_div_assoc, div_le_div_iff_of_pos_right base0]
    exact found.low nonzero
  · rw [power, ← mul_div_assoc, div_lt_div_iff_of_pos_right base0]
    exact found.high nonzero

end LeadingDigit

def roundHalfAway (number : ℚ) : Int :=
  if 0 ≤ number then ⌊number + 1 / 2⌋ else -⌊-number + 1 / 2⌋

theorem roundHalfAway_neg (number : ℚ) : roundHalfAway (-number) = -roundHalfAway number := by
  unfold roundHalfAway
  rcases lt_trichotomy number 0 with negative | rfl | positive
  · rw [if_pos (by linarith), if_neg (by linarith), neg_neg]
  · norm_num
  · rw [if_neg (by linarith), if_pos positive.le, neg_neg]

/-- The last digit taken off, rounded half away from zero. -/
def dropDigit (value : Int) : Int := value.sign * ((value.natAbs + 5) / 10 : Nat)

@[simp] theorem dropDigit_neg (value : Int) : dropDigit (-value) = -dropDigit value := by
  rw [dropDigit, dropDigit, Int.sign_neg, Int.natAbs_neg, neg_mul]

theorem dropDigit_of_nonneg {value : Int} (nonneg : 0 ≤ value) : dropDigit value = (value + 5) / 10 := by
  obtain ⟨value, rfl⟩ := Int.eq_ofNat_of_zero_le nonneg
  rw [dropDigit, Int.natAbs_natCast]
  by_cases zero : value = 0
  · simp [zero]
  · rw [Int.sign_eq_one_of_pos (by omega), one_mul]
    push_cast
    rfl

theorem dropDigit_natCast_tdiv {den : Nat} (positive : 0 < den) (num : Nat) :
    dropDigit ((num : Int).tdiv den) = roundHalfAway ((num : Int) / (10 * (den : Int))) := by
  have half : ((num : Int) : ℚ) / (10 * ((den : Int) : ℚ)) + 1 / 2 =
      ((num + 5 * den : Nat) : ℚ) / ((10 * den : Nat) : ℚ) := by
    push_cast
    field_simp
    ring
  have whole : (num + 5 * den) / (10 * den) = (num / den + 5) / 10 := by
    rw [Nat.mul_comm 10 den, ← Nat.div_div_eq_div_mul, Nat.add_mul_div_right _ _ positive]
  rw [roundHalfAway, if_pos (by positivity), half, Rat.floor_natCast_div_natCast, ← Int.natCast_ediv,
    whole, ← Int.ofNat_tdiv, dropDigit_of_nonneg (Int.natCast_nonneg _)]
  push_cast
  rfl

/-- A truncated quotient rounded by its last digit is the exact quotient rounded. -/
theorem dropDigit_tdiv {den : Int} (nonzero : den ≠ 0) (num : Int) :
    dropDigit (num.tdiv den) = roundHalfAway (num / (10 * den)) := by
  have positive : 0 < den.natAbs := Int.natAbs_pos.mpr nonzero
  have natural := dropDigit_natCast_tdiv positive num.natAbs
  rcases Int.natAbs_eq num with left | left <;> rcases Int.natAbs_eq den with right | right <;>
    rw [left, right]
  · exact natural
  · rw [Int.tdiv_neg, dropDigit_neg, Int.cast_neg, mul_neg, div_neg, roundHalfAway_neg, natural]
  · rw [Int.neg_tdiv, dropDigit_neg, Int.cast_neg, neg_div, roundHalfAway_neg, natural]
  · rw [Int.neg_tdiv, Int.tdiv_neg, neg_neg, Int.cast_neg, Int.cast_neg, mul_neg, neg_div_neg_eq, natural]

end OpenGauss.Lib
