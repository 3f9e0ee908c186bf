import Mathlib.Tactic

/-! A queue of items with keys that do not decrease towards the tail. Positions are never used
again, items may leave gaps, and an item may be shifted over gaps towards the tail. -/

namespace OpenGauss.Lib

open Function (update update_of_ne update_self)

universe u v

variable {Key : Type u} {Item : Type v} [LinearOrder Key]

/-- What the positions between head and tail hold, and the newest key there can be. -/
structure OrderedQueue (head tail : Nat) (entry : Nat → Option (Key × Item)) (newest : Key) : Prop where
  inside : ∀ position key item, entry position = some (key, item) → head ≤ position ∧ position < tail
  sorted : ∀ first second firstKey secondKey firstItem secondItem, first < second →
    entry first = some (firstKey, firstItem) → entry second = some (secondKey, secondItem) →
      firstKey ≤ secondKey
  bounded : ∀ position key item, entry position = some (key, item) → key ≤ newest
  unique : ∀ first second firstKey secondKey item,
    entry first = some (firstKey, item) → entry second = some (secondKey, item) → first = second

namespace OrderedQueue

variable {head tail position source target : Nat} {entry : Nat → Option (Key × Item)} {newest newer key : Key}
  {item item' : Item}

theorem empty (newest : Key) : OrderedQueue head tail (fun _ => (none : Option (Key × Item))) newest :=
  ⟨nofun, nofun, nofun, nofun⟩

section

variable (queue : OrderedQueue head tail entry newest)

include queue

theorem outside (out : position < head ∨ tail ≤ position) : entry position = none := by
  cases here : entry position with
  | none => rfl
  | some pair =>
    obtain ⟨low, high⟩ := queue.inside position pair.1 pair.2 here
    omega

theorem advance (later : newest ≤ newer) : OrderedQueue head tail entry newer :=
  ⟨queue.inside, queue.sorted, fun position key item here => (queue.bounded position key item here).trans later,
    queue.unique⟩

/-- A new item gets the newest key and the position at the tail. -/
theorem reserve (more : head ≤ tail) (absent : ∀ position key, entry position ≠ some (key, item)) :
    OrderedQueue head (tail + 1) (update entry tail (some (newest, item))) newest := by
  have cases_of : ∀ {position key other},
      update entry tail (some (newest, item)) position = some (key, other) →
      (position = tail ∧ key = newest ∧ other = item) ∨
      (position < tail ∧ entry position = some (key, other)) := by
    intro position key other here
    by_cases last : position = tail
    · subst last
      rw [update_self] at here
      obtain ⟨rfl, rfl⟩ := Prod.mk.inj (Option.some.inj here)
      exact Or.inl ⟨rfl, rfl, rfl⟩
    · rw [update_of_ne last] at here
      exact Or.inr ⟨(queue.inside position key other here).2, here⟩
  refine ⟨?_, ?_, ?_, ?_⟩
  · intro position key other here
    rcases cases_of here with ⟨rfl, -, -⟩ | ⟨-, here⟩
    · exact ⟨more, Nat.lt_succ_self _⟩
    · obtain ⟨low, high⟩ := queue.inside position key other here
      exact ⟨low, high.trans (Nat.lt_succ_self _)⟩
  · intro first second firstKey secondKey firstItem secondItem less here there
    rcases cases_of here with ⟨rfl, -, -⟩ | ⟨below, kept⟩
    · rcases cases_of there with ⟨rfl, -, -⟩ | ⟨below, -⟩ <;> omega
    · rcases cases_of there with ⟨-, rfl, -⟩ | ⟨-, also⟩
      · exact queue.bounded first firstKey firstItem kept
      · exact queue.sorted first second firstKey secondKey firstItem secondItem less kept also
  · intro position key other here
    rcases cases_of here with ⟨-, rfl, -⟩ | ⟨-, here⟩
    · exact le_rfl
    · exact queue.bounded position key other here
  · intro first second firstKey secondKey other here there
    rcases cases_of here with ⟨rfl, -, rfl⟩ | ⟨-, kept⟩ <;>
      rcases cases_of there with ⟨rfl, -, same⟩ | ⟨-, also⟩
    · rfl
    · exact absurd also (absent _ _)
    · exact absurd (same ▸ kept) (absent _ _)
    · exact queue.unique first second firstKey secondKey other kept also

/-- An item is replaced by one that is nowhere. -/
theorem replace (here : entry position = some (key, item))
    (absent : ∀ position key, entry position ≠ some (key, item')) :
    OrderedQueue head tail (update entry position (some (key, item'))) newest := by
  have cases_of : ∀ {other otherKey otherItem},
      update entry position (some (key, item')) other = some (otherKey, otherItem) →
      (other = position ∧ otherKey = key ∧ otherItem = item') ∨
        (other ≠ position ∧ entry other = some (otherKey, otherItem)) := by
    intro other otherKey otherItem found
    by_cases same : other = position
    · subst same
      rw [update_self] at found
      obtain ⟨rfl, rfl⟩ := Prod.mk.inj (Option.some.inj found)
      exact Or.inl ⟨rfl, rfl, rfl⟩
    · rw [update_of_ne same] at found
      exact Or.inr ⟨same, found⟩
  have before : ∀ {other otherKey otherItem},
      update entry position (some (key, item')) other = some (otherKey, otherItem) →
      ∃ old, entry other = some (otherKey, old) := by
    intro other otherKey otherItem found
    rcases cases_of found with ⟨rfl, rfl, -⟩ | ⟨-, found⟩
    · exact ⟨item, here⟩
    · exact ⟨otherItem, found⟩
  refine ⟨?_, ?_, ?_, ?_⟩
  · intro other otherKey otherItem found
    obtain ⟨old, found⟩ := before found
    exact queue.inside other otherKey old found
  · intro first second firstKey secondKey firstItem secondItem less found also
    obtain ⟨old, found⟩ := before found
    obtain ⟨older, also⟩ := before also
    exact queue.sorted first second firstKey secondKey old older less found also
  · intro other otherKey otherItem found
    obtain ⟨old, found⟩ := before found
    exact queue.bounded other otherKey old found
  · intro first second firstKey secondKey other found also
    rcases cases_of found with ⟨rfl, -, rfl⟩ | ⟨-, kept⟩ <;>
      rcases cases_of also with ⟨rfl, -, same⟩ | ⟨-, last⟩
    · rfl
    · exact absurd last (absent _ _)
    · exact absurd (same ▸ kept) (absent _ _)
    · exact queue.unique first second firstKey secondKey other kept last

theorem remove (position : Nat) : OrderedQueue head tail (update entry position none) newest := by
  have before : ∀ {other key item}, update entry position none other = some (key, item) →
      entry other = some (key, item) := by
    intro other key item found
    by_cases same : other = position
    · subst same
      rw [update_self] at found
      cases found
    · rwa [update_of_ne same] at found
  refine ⟨?_, ?_, ?_, ?_⟩
  · exact fun other key item found => queue.inside other key item (before found)
  · exact fun first second firstKey secondKey firstItem secondItem less found also =>
      queue.sorted first second firstKey secondKey firstItem secondItem less (before found) (before also)
  · exact fun other key item found => queue.bounded other key item (before found)
  · exact fun first second firstKey secondKey item found also =>
      queue.unique first second firstKey secondKey item (before found) (before also)

/-- An item is shifted over gaps only. -/
theorem shift (here : entry source = some (key, item)) (less : source < target) (below : target < tail)
    (gaps : ∀ position, source < position → position ≤ target → entry position = none) :
    OrderedQueue head tail (update (update entry source none) target (some (key, item))) newest := by
  have cases_of : ∀ {other otherKey otherItem},
      update (update entry source none) target (some (key, item)) other = some (otherKey, otherItem) →
      (other = target ∧ otherKey = key ∧ otherItem = item) ∨
        ((other < source ∨ target < other) ∧ entry other = some (otherKey, otherItem)) := by
    intro other otherKey otherItem found
    by_cases same : other = target
    · subst same
      rw [update_self] at found
      obtain ⟨rfl, rfl⟩ := Prod.mk.inj (Option.some.inj found)
      exact Or.inl ⟨rfl, rfl, rfl⟩
    · rw [update_of_ne same] at found
      by_cases old : other = source
      · subst old
        rw [update_self] at found
        cases found
      · rw [update_of_ne old] at found
        refine Or.inr ⟨?_, found⟩
        by_contra between
        rw [gaps other (by omega) (by omega)] at found
        cases found
  have low := (queue.inside source key item here).1
  refine ⟨?_, ?_, ?_, ?_⟩
  · intro other otherKey otherItem found
    rcases cases_of found with ⟨rfl, -, -⟩ | ⟨-, found⟩
    · exact ⟨low.trans less.le, below⟩
    · exact queue.inside other otherKey otherItem found
  · intro first second firstKey secondKey firstItem secondItem before found also
    rcases cases_of found with ⟨rfl, rfl, -⟩ | ⟨side, kept⟩ <;>
      rcases cases_of also with ⟨rfl, rfl, -⟩ | ⟨other, last⟩
    · omega
    · exact queue.sorted source second firstKey secondKey item secondItem (by omega) here last
    · exact queue.sorted first source firstKey secondKey firstItem item (by omega) kept here
    · exact queue.sorted first second firstKey secondKey firstItem secondItem before kept last
  · intro other otherKey otherItem found
    rcases cases_of found with ⟨-, rfl, -⟩ | ⟨-, found⟩
    · exact queue.bounded source otherKey item here
    · exact queue.bounded other otherKey otherItem found
  · intro first second firstKey secondKey other found also
    rcases cases_of found with ⟨rfl, -, rfl⟩ | ⟨side, kept⟩ <;>
      rcases cases_of also with ⟨rfl, -, same⟩ | ⟨away, last⟩
    · rfl
    · have := queue.unique source second key secondKey other here last
      omega
    · subst same
      have := queue.unique source first key firstKey other here kept
      omega
    · exact queue.unique first second firstKey secondKey other kept last

/-- The head passes a gap. -/
theorem dropHead (gap : entry head = none) : OrderedQueue (head + 1) tail entry newest := by
  refine ⟨?_, queue.sorted, queue.bounded, queue.unique⟩
  intro position key item here
  obtain ⟨low, high⟩ := queue.inside position key item here
  refine ⟨Nat.lt_of_le_of_ne low ?_, high⟩
  rintro rfl
  cases gap.symm.trans here

end

end OrderedQueue

end OpenGauss.Lib
