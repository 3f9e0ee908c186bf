import Mathlib.Tactic

/-! Sketches whose registers stand for the greatest value of their items. -/

namespace OpenGauss.Lib

universe u v

variable {Item : Type u} {Register : Type v} [DecidableEq Register] (slot : Item → Register × Nat)

/-- What an item counts for in a register. -/
def share (register : Register) (item : Item) : Nat :=
  if (slot item).1 = register then (slot item).2 else 0

/-- The greatest value in a register, 0 without an item. -/
def greatest (items : List Item) (register : Register) : Nat :=
  items.foldr (fun item best => max (share slot register item) best) 0

/-- The value of the last item in a register, 0 without an item. -/
def latest (items : List Item) (register : Register) : Nat :=
  items.foldl (fun kept item => if (slot item).1 = register then (slot item).2 else kept) 0

@[simp] theorem greatest_nil (register : Register) : greatest slot [] register = 0 := rfl

@[simp] theorem greatest_cons (item : Item) (items : List Item) (register : Register) :
    greatest slot (item :: items) register =
      max (share slot register item) (greatest slot items register) := rfl

@[simp] theorem greatest_append (front back : List Item) (register : Register) :
    greatest slot (front ++ back) register =
      max (greatest slot front register) (greatest slot back register) := by
  induction front with
  | nil => simp
  | cons item front ih => rw [List.cons_append, greatest_cons, greatest_cons, ih, max_assoc]

variable {slot} {register : Register}

variable {items : List Item} {item : Item} {before after : List Item}

theorem greatest_le_iff {bound : Nat} :
    greatest slot items register ≤ bound ↔ ∀ item ∈ items, share slot register item ≤ bound := by
  induction items with
  | nil => simp
  | cons item items ih => rw [greatest_cons, max_le_iff, ih, List.forall_mem_cons]

theorem share_le_greatest (member : item ∈ items) :
    share slot register item ≤ greatest slot items register :=
  greatest_le_iff.mp le_rfl item member

/-- Only which items there are matters, neither their order nor their repetition. -/
theorem greatest_congr {items others : List Item} (same : ∀ item, item ∈ items ↔ item ∈ others) :
    greatest slot items = greatest slot others := by
  funext register
  apply le_antisymm
  · exact greatest_le_iff.mpr fun item member => share_le_greatest ((same item).mp member)
  · exact greatest_le_iff.mpr fun item member => share_le_greatest ((same item).mpr member)

theorem greatest_eq_zero (outside : ∀ item ∈ items, (slot item).1 ≠ register) :
    greatest slot items register = 0 := by
  apply Nat.le_zero.mp
  exact greatest_le_iff.mpr fun item member => (if_neg (outside item member)).le

@[simp] theorem latest_nil : latest slot [] register = 0 := rfl

theorem latest_concat (items : List Item) (item : Item) : latest slot (items ++ [item]) register =
      if (slot item).1 = register then (slot item).2 else latest slot items register := by
  rw [latest, List.foldl_concat, latest]

theorem latest_append_outside {items others : List Item}
    (outside : ∀ item ∈ others, (slot item).1 ≠ register) :
    latest slot (items ++ others) register = latest slot items register := by
  induction others using List.reverseRecOn with
  | nil => rw [List.append_nil]
  | append_singleton others item ih =>
    rw [← List.append_assoc, latest_concat, if_neg (outside item (by simp)),
      ih fun other member => outside other (List.mem_append_left _ member)]

/-- In every register the last item has the greatest value. -/
def LastIsGreatest (slot : Item → Register × Nat) (items : List Item) : Prop :=
  ∀ before item after, items = before ++ item :: after → (∀ later ∈ after, (slot later).1 ≠ (slot item).1) →
    ∀ earlier ∈ before, (slot earlier).1 = (slot item).1 → (slot earlier).2 ≤ (slot item).2

/-- A register without items, or the last item in it. -/
theorem last_item (slot : Item → Register × Nat) (items : List Item) (register : Register) :
    (∀ item ∈ items, (slot item).1 ≠ register) ∨
      ∃ before item after, items = before ++ item :: after ∧ (slot item).1 = register ∧
        ∀ later ∈ after, (slot later).1 ≠ register := by
  induction items with
  | nil => exact Or.inl (by simp)
  | cons first items ih =>
    rcases ih with outside | ⟨before, item, after, rfl, here, later⟩
    · by_cases here : (slot first).1 = register
      · exact Or.inr ⟨[], first, items, rfl, here, outside⟩
      · exact Or.inl (List.forall_mem_cons.mpr ⟨here, outside⟩)
    · exact Or.inr ⟨first :: before, item, after, rfl, here, later⟩

theorem latest_split (later : ∀ later ∈ after, (slot later).1 ≠ (slot item).1) :
    latest slot (before ++ item :: after) (slot item).1 = (slot item).2 := by
  rw [List.append_cons, latest_append_outside later, latest_concat, if_pos rfl]

theorem greatest_split (later : ∀ later ∈ after, (slot later).1 ≠ (slot item).1) :
    greatest slot (before ++ item :: after) (slot item).1 =
      max (greatest slot before (slot item).1) (slot item).2 := by
  rw [greatest_append, greatest_cons, greatest_eq_zero later, share, if_pos rfl, Nat.max_zero]

/-- Overwriting gives the greatest values exactly when the last item has the greatest value in every
register. -/
theorem latest_eq_greatest_iff : (∀ register, latest slot items register = greatest slot items register) ↔
      LastIsGreatest slot items := by
  constructor
  · rintro same before item after rfl later earlier member sharing
    have value := same (slot item).1
    rw [latest_split later, greatest_split later] at value
    have known := @share_le_greatest _ _ _ slot (slot item).1 _ _ member
    rw [share, if_pos sharing] at known
    omega
  · intro last register
    rcases last_item slot items register with outside | ⟨before, item, after, rfl, rfl, later⟩
    · rw [greatest_eq_zero outside]
      exact (@latest_append_outside _ _ _ slot _ [] items outside).trans latest_nil
    · rw [latest_split later, greatest_split later]
      refine (max_eq_right (greatest_le_iff.mpr fun earlier member => ?_)).symm
      unfold share
      split
      · rename_i sharing
        exact last before item after rfl later earlier member sharing
      · exact Nat.zero_le _

end OpenGauss.Lib
