import Mathlib.Tactic

namespace OpenGauss.Lib

universe u

variable {Item : Type u}

/-- An occupied index splits a list; overwriting the index replaces the middle of the split and
erasing it drops the middle. -/
theorem split_at_index {items : List Item} {index : Nat} {item : Item} (found : items[index]? = some item) :
    ∃ before after, before.length = index ∧ items = before ++ item :: after ∧
      (∀ next, items.set index next = before ++ next :: after) ∧
      items.eraseIdx index = before ++ after := by
  obtain ⟨inside, rfl⟩ := List.getElem?_eq_some_iff.mp found
  refine ⟨items.take index, items.drop (index + 1), ?_, ?_, ?_, List.eraseIdx_eq_take_drop_succ _ _⟩
  · rw [List.length_take, Nat.min_eq_left inside.le]
  · rw [← List.drop_eq_getElem_cons, List.take_append_drop]
  · intro next
    rw [List.set_eq_take_append_cons_drop, if_pos inside]

/-- Two lists that agree outside a range are made equal by copying the range. -/
theorem splice_eq {before after : List Item} {start stop : Nat} (ordered : start ≤ stop)
    (same : ∀ index, index < start ∨ stop ≤ index → after[index]? = before[index]?) :
    before.take start ++ (after.drop start).take (stop - start) ++ before.drop stop = after := by
  have front : before.take start = after.take start := by
    apply List.ext_getElem?
    intro index
    rw [List.getElem?_take, List.getElem?_take]
    split
    · rename_i low
      exact (same index (Or.inl low)).symm
    · rfl
  have back : before.drop stop = after.drop stop := by
    apply List.ext_getElem?
    intro index
    rw [List.getElem?_drop, List.getElem?_drop]
    exact (same (stop + index) (Or.inr (Nat.le_add_right _ _))).symm
  have middle : (after.drop start).drop (stop - start) = after.drop stop := by
    rw [List.drop_drop, Nat.add_sub_cancel' ordered]
  rw [front, back, ← middle, List.append_assoc, List.take_append_drop, List.take_append_drop]

/-- How many leading items two lists share. -/
def commonPrefix [DecidableEq Item] : List Item → List Item → Nat
  | first :: rest, second :: others => if first = second then commonPrefix rest others + 1 else 0
  | _, _ => 0

theorem commonPrefix_le [DecidableEq Item] (first second : List Item) :
    commonPrefix first second ≤ first.length ∧ commonPrefix first second ≤ second.length := by
  fun_induction commonPrefix first second <;> simp_all

theorem take_commonPrefix [DecidableEq Item] (first second : List Item) :
    first.take (commonPrefix first second) = second.take (commonPrefix first second) := by
  fun_induction commonPrefix first second <;> simp_all

/-- Any shorter beginning is shared too. -/
theorem take_of_le_commonPrefix [DecidableEq Item] {first second : List Item} {count : Nat}
    (shared : count ≤ commonPrefix first second) : first.take count = second.take count := by
  have same := congrArg (List.take count) (take_commonPrefix first second)
  rwa [List.take_take, List.take_take, Nat.min_eq_left shared] at same

theorem modify_congr {items : List Item} {index : Nat} {change other : Item → Item}
    (same : ∀ item, items[index]? = some item → change item = other item) :
    items.modify index change = items.modify index other := by
  apply List.ext_getElem?
  intro place
  rw [List.getElem?_modify, List.getElem?_modify]
  by_cases here : index = place
  · subst here
    cases found : items[index]? with
    | none => rfl
    | some item => simp [same item found]
  · simp [here]

theorem modify_unchanged {items : List Item} {index : Nat} {change : Item → Item}
    (same : ∀ item, items[index]? = some item → change item = item) :
    items.modify index change = items := by
  have unchanged : items.modify index change = items.modify index id := modify_congr same
  rw [unchanged, List.modify_id]

end OpenGauss.Lib
