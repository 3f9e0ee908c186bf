import Mathlib.Tactic

/-! Lists whose items follow one another: each item is entered where the item before it was left.
-/

namespace OpenGauss.Lib

universe u v

variable {Item : Type u} {Point : Type v}

/-- The items lead from `first` to `last`. -/
def Chain (enter leave : Item → Point) : Point → List Item → Point → Prop
  | first, [], last => first = last
  | first, item :: rest, last => enter item = first ∧ Chain enter leave (leave item) rest last

namespace Chain

variable {enter leave : Item → Point} {first middle last : Point} {items others : List Item} {item : Item}

theorem append (chain : Chain enter leave first items middle)
    (more : Chain enter leave middle others last) : Chain enter leave first (items ++ others) last := by
  induction items generalizing first with
  | nil =>
    obtain rfl := chain
    exact more
  | cons item rest ih => exact ⟨chain.1, ih chain.2⟩

theorem singleton (entered : enter item = first) : Chain enter leave first [item] (leave item) :=
  ⟨entered, rfl⟩

/-- One more item at the end. -/
theorem push (chain : Chain enter leave first items middle) (entered : enter item = middle) :
    Chain enter leave first (items ++ [item]) (leave item) :=
  chain.append (singleton entered)

theorem split (chain : Chain enter leave first (items ++ others) last) :
    ∃ middle, Chain enter leave first items middle ∧ Chain enter leave middle others last := by
  induction items generalizing first with
  | nil => exact ⟨first, rfl, chain⟩
  | cons item rest ih =>
    obtain ⟨middle, front, back⟩ := ih chain.2
    exact ⟨middle, ⟨chain.1, front⟩, back⟩

/-- An item is entered where the one before it was left. -/
theorem adjacent {front back : List Item} {before after : Item}
    (chain : Chain enter leave first (front ++ before :: after :: back) last) :
    enter after = leave before := by
  obtain ⟨_, -, -, tail⟩ := chain.split
  exact tail.1

section Order

variable [Preorder Point]

section

variable (chain : Chain enter leave first items last) (proper : ∀ item ∈ items, enter item ≤ leave item)

include chain proper

theorem le : first ≤ last := by
  induction items generalizing first with
  | nil => exact le_of_eq chain
  | cons item rest ih =>
    have step := proper item (by simp)
    rw [chain.1] at step
    exact step.trans (ih chain.2 fun other inside => proper other (by simp [inside]))

theorem first_le : ∀ item ∈ items, first ≤ enter item := by
  intro item inside
  obtain ⟨front, back, rfl⟩ := List.append_of_mem inside
  obtain ⟨_, before, rfl, -⟩ := chain.split
  exact before.le fun other within => proper other (by simp [within])

/-- Ranges that lead from one to the next do not overlap, and come in order. -/
theorem pairwise : items.Pairwise fun before after => leave before ≤ enter after := by
  induction items generalizing first with
  | nil => exact List.Pairwise.nil
  | cons item rest ih =>
    have smaller : ∀ other ∈ rest, enter other ≤ leave other :=
      fun other inside => proper other (by simp [inside])
    exact List.pairwise_cons.mpr ⟨chain.2.first_le smaller, ih chain.2 smaller⟩

end

end Order

end Chain

end OpenGauss.Lib
