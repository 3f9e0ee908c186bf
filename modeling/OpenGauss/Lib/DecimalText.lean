import Mathlib.Tactic
import Mathlib.Data.Nat.Digits.Lemmas

/-! Decimal numerals: without leading zeros, or padded with them to a width. -/

namespace OpenGauss.Lib

/-- The number that digits stand for, the highest digit first. -/
def decimalValue (digits : List Nat) : Nat := Nat.ofDigits 10 digits.reverse

def plain (value : Nat) : List Nat := if value = 0 then [0] else (Nat.digits 10 value).reverse

/-- Zeros are put in front up to the width. -/
def padded (width value : Nat) : List Nat :=
  List.replicate (width - (plain value).length) 0 ++ plain value

def decimalChar (digit : Nat) : Char := Char.ofNat (48 + digit)

theorem decimalValue_append (digits rest : List Nat) : decimalValue (digits ++ rest) =
      decimalValue digits * 10 ^ rest.length + decimalValue rest := by
  rw [decimalValue, List.reverse_append, Nat.ofDigits_append, List.length_reverse, decimalValue,
    decimalValue, Nat.add_comm, Nat.mul_comm]

theorem decimalValue_lt {digits : List Nat} (small : ∀ digit ∈ digits, digit < 10) :
    decimalValue digits < 10 ^ digits.length := by
  have below := Nat.ofDigits_lt_base_pow_length (by decide : 1 < 10)
    (fun digit member => small digit (List.mem_reverse.mp member))
  rwa [List.length_reverse] at below

/-- Digits of one length are told apart by their number. -/
theorem decimals_unique {digits others : List Nat} (length : digits.length = others.length)
    (small : ∀ digit ∈ digits, digit < 10) (otherSmall : ∀ digit ∈ others, digit < 10)
    (same : decimalValue digits = decimalValue others) : digits = others := by
  apply List.reverse_injective
  refine Nat.ofDigits_inj_of_len_eq (by decide : 1 < 10) (by simpa using length) ?_ ?_ same
  · exact fun digit member => small digit (List.mem_reverse.mp member)
  · exact fun digit member => otherSmall digit (List.mem_reverse.mp member)

theorem plain_ne_nil (value : Nat) : plain value ≠ [] := by
  unfold plain
  split_ifs with zero
  · simp
  · simpa [Nat.digits_ne_nil_iff_ne_zero] using zero

theorem plain_lt {value digit : Nat} (member : digit ∈ plain value) : digit < 10 := by
  unfold plain at member
  split_ifs at member with zero
  · rw [List.mem_singleton.mp member]
    decide
  · exact Nat.digits_lt_base (by decide) (List.mem_reverse.mp member)

theorem decimalValue_plain (value : Nat) : decimalValue (plain value) = value := by
  unfold plain decimalValue
  split_ifs with zero
  · rw [zero]
    rfl
  · rw [List.reverse_reverse, Nat.ofDigits_digits]

/-- Digits that do not start with 0 are printed for their number. -/
theorem plain_of {digits : List Nat} (nonempty : digits ≠ []) (leading : digits.head? ≠ some 0)
    (small : ∀ digit ∈ digits, digit < 10) : plain (decimalValue digits) = digits := by
  have back : Nat.digits 10 (decimalValue digits) = digits.reverse := by
    apply Nat.digits_ofDigits 10 (by decide)
    · exact fun digit member => small digit (List.mem_reverse.mp member)
    · intro _ zero
      rw [List.getLast_reverse] at zero
      exact leading (by rw [List.head?_eq_some_head nonempty, zero])
  have nonzero : decimalValue digits ≠ 0 := by
    intro zero
    rw [zero, Nat.digits_zero] at back
    exact nonempty (List.reverse_eq_nil_iff.mp back.symm)
  rw [plain, if_neg nonzero, back, List.reverse_reverse]

theorem length_plain_le {value width : Nat} (pos : 0 < width) :
    (plain value).length ≤ width ↔ value < 10 ^ width := by
  unfold plain
  split_ifs with zero
  · rw [zero]
    exact iff_of_true pos (by positivity)
  · rw [List.length_reverse]
    exact Nat.digits_length_le_iff (by decide) _

section Padded

variable {width value : Nat} (pos : 0 < width) (below : value < 10 ^ width)
include pos below

theorem length_padded : (padded width value).length = width := by
  have few := (length_plain_le pos).mpr below
  rw [padded, List.length_append, List.length_replicate]
  omega

end Padded

theorem padded_lt {width value digit : Nat} (member : digit ∈ padded width value) : digit < 10 := by
  obtain zero | inside := List.mem_append.mp member
  · rw [(List.mem_replicate.mp zero).2]
    decide
  · exact plain_lt inside

theorem decimalValue_zeros (count : Nat) : decimalValue (List.replicate count 0) = 0 := by
  rw [decimalValue, List.reverse_replicate, Nat.ofDigits_replicate_zero]

theorem decimalValue_padded (width value : Nat) : decimalValue (padded width value) = value := by
  rw [padded, decimalValue_append, decimalValue_zeros, zero_mul, zero_add, decimalValue_plain]

/-- Digits are printed for their number at the width that they have. -/
theorem padded_of {digits : List Nat} {width : Nat} (length : digits.length = width)
    (pos : 0 < width) (small : ∀ digit ∈ digits, digit < 10) :
    padded width (decimalValue digits) = digits := by
  have below := decimalValue_lt small
  rw [length] at below
  exact decimals_unique ((length_padded pos below).trans length.symm)
    (fun digit member => padded_lt member) small (decimalValue_padded _ _)

theorem head_plain {value : Nat} (nonzero : value ≠ 0) : (plain value).head? ≠ some 0 := by
  have digits : Nat.digits 10 value ≠ [] := Nat.digits_ne_nil_iff_ne_zero.mpr nonzero
  rw [plain, if_neg nonzero, List.head?_reverse, List.getLast?_eq_getLast_of_ne_nil digits]
  exact fun zero => Nat.getLast_digit_ne_zero 10 nonzero (Option.some.inj zero)

/-- A numeral is the one of what its last digits leave, followed by these. -/
theorem plain_append {value scale : Nat} (pos : 0 < scale) (nonzero : value / 10 ^ scale ≠ 0) :
    plain value = plain (value / 10 ^ scale) ++ padded scale (value % 10 ^ scale) := by
  have below : value % 10 ^ scale < 10 ^ scale := Nat.mod_lt _ (by positivity)
  have nonempty := plain_ne_nil (value / 10 ^ scale)
  have whole : decimalValue (plain (value / 10 ^ scale) ++ padded scale (value % 10 ^ scale)) =
      value := by
    rw [decimalValue_append, decimalValue_plain, decimalValue_padded, length_padded pos below,
      Nat.div_add_mod']
  conv_lhs => rw [← whole]
  apply plain_of
  · simp [nonempty]
  · rw [List.head?_append_of_ne_nil _ nonempty]
    exact head_plain nonzero
  · intro digit member
    exact (List.mem_append.mp member).elim plain_lt padded_lt

theorem padded_append {value width scale : Nat} (pos : 0 < scale) (more : scale < width)
    (below : value < 10 ^ width) :
    padded width value =
      padded (width - scale) (value / 10 ^ scale) ++ padded scale (value % 10 ^ scale) := by
  have behind : value % 10 ^ scale < 10 ^ scale := Nat.mod_lt _ (by positivity)
  have front : value / 10 ^ scale < 10 ^ (width - scale) := by
    apply Nat.div_lt_of_lt_mul
    rwa [← pow_add, Nat.add_sub_cancel' more.le]
  have whole : decimalValue (padded (width - scale) (value / 10 ^ scale) ++
      padded scale (value % 10 ^ scale)) = value := by
    rw [decimalValue_append, decimalValue_padded, decimalValue_padded, length_padded pos behind,
      Nat.div_add_mod']
  conv_lhs => rw [← whole]
  apply padded_of
  · rw [List.length_append, length_padded pos behind, length_padded (by omega) front]
    omega
  · omega
  · intro digit member
    exact (List.mem_append.mp member).elim padded_lt padded_lt

end OpenGauss.Lib
