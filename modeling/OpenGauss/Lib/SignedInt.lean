import Mathlib.Tactic

/-! Signed machine integers as integers in a range. -/

namespace OpenGauss.Lib

def InSigned (bits : Nat) (value : Int) : Prop :=
  -2 ^ (bits - 1) ≤ value ∧ value < 2 ^ (bits - 1)

instance (bits : Nat) (value : Int) : Decidable (InSigned bits value) :=
  inferInstanceAs (Decidable (_ ∧ _))

/-- What an operation gives, `none` where it overflows. -/
def signed (bits : Nat) (value : Int) : Option Int :=
  if InSigned bits value then some value else none

variable {bits : Nat} {value : Int}

@[simp] theorem signed_of_in (inside : InSigned bits value) : signed bits value = some value := if_pos inside

theorem signed_of_not_in (outside : ¬ InSigned bits value) : signed bits value = none := if_neg outside

theorem inSigned_zero (bits : Nat) : InSigned bits 0 := by
  have positive : (0 : Int) < 2 ^ (bits - 1) := by positivity
  exact ⟨by omega, positive⟩

theorem InSigned.widen {bits wide : Nat} (inside : InSigned bits value) (wider : bits ≤ wide) :
    InSigned wide value := by
  have powers : (2 : Int) ^ (bits - 1) ≤ 2 ^ (wide - 1) :=
    pow_le_pow_right₀ (by decide) (Nat.sub_le_sub_right wider 1)
  obtain ⟨low, high⟩ := inside
  exact ⟨by omega, by omega⟩

theorem InSigned.neg (inside : InSigned bits value) (nonneg : 0 ≤ value) : InSigned bits (-value) := by
  obtain ⟨low, high⟩ := inside
  exact ⟨by omega, by omega⟩

theorem abs_le_of_inSigned (inside : InSigned bits value) :
    |value| ≤ 2 ^ (bits - 1) := abs_le.mpr ⟨inside.1, inside.2.le⟩

theorem inSigned_of_abs_lt (small : |value| < 2 ^ (bits - 1)) :
    InSigned bits value := by
  obtain ⟨low, high⟩ := abs_lt.mp small
  exact ⟨low.le, high⟩

/-- A power of two is no multiple of ten. -/
theorem not_ten_dvd_two_pow (exponent : Nat) : ¬ (10 : Int) ∣ 2 ^ exponent := by
  intro tens
  have five : Prime (5 : Int) := Int.prime_iff_natAbs_prime.mpr Nat.prime_five
  have two := five.dvd_of_dvd_pow ((Dvd.intro 2 (by decide)).trans tens)
  omega

/-- A product with a power of ten is in range when the factor is no more than the quotient of the
least value: but for the power 1 the least value is no such product. -/
theorem InSigned.mul_pow_ten {bits scale : Nat} (inside : InSigned bits value)
    (few : (-2 ^ (bits - 1) : Int).tdiv (10 ^ scale) ≤ -|value|) :
    InSigned bits (value * 10 ^ scale) := by
  have positive : (0 : Int) < 10 ^ scale := by positivity
  have whole : (0 : Int) ≤ 2 ^ (bits - 1) := by positivity
  rw [Int.neg_tdiv, Int.tdiv_eq_ediv_of_nonneg whole, neg_le_neg_iff, Int.le_ediv_iff_mul_le positive] at few
  have bound : |value * 10 ^ scale| ≤ 2 ^ (bits - 1) := by
    rwa [abs_mul, abs_of_pos positive]
  obtain ⟨low, high⟩ := abs_le.mp bound
  refine ⟨low, lt_of_le_of_ne high fun reached => ?_⟩
  cases scale with
  | zero =>
    rw [pow_zero, mul_one] at reached
    exact inside.2.ne reached
  | succ scale =>
    apply not_ten_dvd_two_pow (bits - 1)
    rw [← reached, pow_succ]
    exact Dvd.intro_left (value * 10 ^ scale) (by ring)

/-- Beyond that quotient it is out of range. -/
theorem not_inSigned_mul_pow_ten {bits scale : Nat}
    (many : -|value| < (-2 ^ (bits - 1) : Int).tdiv (10 ^ scale)) :
    ¬ InSigned bits (value * 10 ^ scale) := by
  have positive : (0 : Int) < 10 ^ scale := by positivity
  have whole : (0 : Int) ≤ 2 ^ (bits - 1) := by positivity
  rw [Int.neg_tdiv, Int.tdiv_eq_ediv_of_nonneg whole, neg_lt_neg_iff,
    Int.ediv_lt_iff_lt_mul positive] at many
  intro inside
  have bound := abs_le_of_inSigned inside
  rw [abs_mul, abs_of_pos positive] at bound
  exact bound.not_gt many

end OpenGauss.Lib
