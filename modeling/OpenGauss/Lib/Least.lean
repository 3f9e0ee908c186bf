import Mathlib.Tactic
import Mathlib.Data.List.Sort

/-! Running minimum in which the bottom value also means "nothing recorded yet", and order
statistics of a descending list. -/

namespace OpenGauss.Lib

universe u

variable {Value : Type u} [LinearOrder Value] [OrderBot Value]

/-- Keep the lesser of two values, taking `⊥` for a value that was never set. -/
def keepLeast (known next : Value) : Value :=
  if known = ⊥ ∨ next ≤ known then next else known

/-- Entries that were all set are not exceeded, whatever was recorded before them. -/
theorem foldl_keepLeast (known : Value) {entries : List Value} (unbroken : ⊥ ∉ entries) :
    (∀ entry ∈ entries, entries.foldl keepLeast known ≤ entry) ∧
      (entries ≠ [] → entries.foldl keepLeast known ≠ ⊥) := by
  induction entries using List.reverseRecOn with
  | nil => simp
  | append_singleton entries next ih =>
    rw [List.mem_append, not_or, List.mem_singleton] at unbroken
    obtain ⟨least, set⟩ := ih unbroken.1
    rw [List.foldl_concat]
    generalize entries.foldl keepLeast known = before at least set
    have nextSet : next ≠ ⊥ := Ne.symm unbroken.2
    unfold keepLeast
    split
    · rename_i lower
      refine ⟨fun entry member => ?_, fun _ => nextSet⟩
      rcases List.mem_append.mp member with old | new
      · exact (lower.resolve_left (set (List.ne_nil_of_mem old))).trans (least entry old)
      · exact (List.mem_singleton.mp new).ge
    · rename_i kept
      obtain ⟨beforeSet, above⟩ := not_or.mp kept
      refine ⟨fun entry member => ?_, fun _ => beforeSet⟩
      rcases List.mem_append.mp member with old | new
      · exact least entry old
      · rw [List.mem_singleton.mp new]
        exact (not_le.mp above).le

omit [OrderBot Value] in
/-- In a descending list, the entry at an index has that many entries and one more at or above it. -/
theorem lt_countP_of_descending {entries : List Value} (descending : entries.Pairwise (· ≥ ·))
    {index : Nat} {entry : Value} (found : entries[index]? = some entry) :
    index < entries.countP (entry ≤ ·) := by
  obtain ⟨inside, rfl⟩ := List.getElem?_eq_some_iff.mp found
  have above : ∀ other ∈ entries.take (index + 1), entries[index] ≤ other := by
    intro other member
    obtain ⟨position, low, rfl⟩ := List.mem_iff_getElem.mp member
    rw [List.length_take] at low
    rw [List.getElem_take]
    rcases Nat.lt_or_eq_of_le (show position ≤ index by omega) with before | rfl
    · exact List.pairwise_iff_getElem.mp descending position index _ inside before
    · exact le_refl _
  have all : (entries.take (index + 1)).countP (entries[index] ≤ ·) = index + 1 := by
    rw [List.countP_eq_length.mpr (by simpa using above), List.length_take]
    omega
  have part := (List.take_sublist (index + 1) entries).countP_le (p := (entries[index] ≤ ·))
  omega

end OpenGauss.Lib
