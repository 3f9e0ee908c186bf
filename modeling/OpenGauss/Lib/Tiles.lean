import Mathlib.Tactic

/-! Consecutive half-open ranges `[start i, stop i)`, `first ≤ i < last`, that tile `[low, high)`.
Nothing is said about the ranges outside `first ≤ i < last`. -/

namespace OpenGauss.Lib

/-- The ranges `first, …, last - 1` follow each other without gap or overlap from `low` to `high`. -/
structure Tiles (start stop : Nat → Nat) (first last low high : Nat) : Prop where
  ordered : first ≤ last
  proper : ∀ index, first ≤ index → index < last → start index < stop index
  joined : ∀ index, first ≤ index → index + 1 < last → start (index + 1) = stop index
  opens : first < last → start first = low
  closes : first < last → stop (last - 1) = high
  empty : first = last → low = high

namespace Tiles

variable {start stop : Nat → Nat} {first last low high : Nat}

theorem nil (start stop : Nat → Nat) (first low : Nat) : Tiles start stop first first low low where
  ordered := le_rfl
  proper := by omega
  joined := by omega
  opens := by omega
  closes := by omega
  empty := fun _ => rfl

section

variable (tiles : Tiles start stop first last low high)

include tiles

theorem congr {start' stop' : Nat → Nat}
    (same : ∀ index, first ≤ index → index < last → start' index = start index ∧ stop' index = stop index) :
    Tiles start' stop' first last low high where
  ordered := tiles.ordered
  proper := by
    intro index from_first to_last
    rw [(same index from_first to_last).1, (same index from_first to_last).2]
    exact tiles.proper index from_first to_last
  joined := by
    intro index from_first to_last
    rw [(same (index + 1) (by omega) to_last).1, (same index from_first (by omega)).2]
    exact tiles.joined index from_first to_last
  opens := fun present => (same first le_rfl present).1.trans (tiles.opens present)
  closes := fun present => (same (last - 1) (by omega) (by omega)).2.trans (tiles.closes present)
  empty := tiles.empty

/-- One more range at the end. -/
theorem push (joins : start last = high)
    (proper : start last < stop last) : Tiles start stop first (last + 1) low (stop last) where
  ordered := Nat.le_succ_of_le tiles.ordered
  proper := by
    intro index from_first to_last
    rcases Nat.lt_succ_iff_lt_or_eq.mp to_last with before | rfl
    · exact tiles.proper index from_first before
    · exact proper
  joined := by
    intro index from_first to_last
    rcases Nat.lt_or_ge (index + 1) last with inside | atEnd
    · exact tiles.joined index from_first inside
    · obtain rfl : last = index + 1 := by omega
      rw [joins, ← tiles.closes (by omega), Nat.add_sub_cancel]
  opens := by
    intro _
    rcases Nat.lt_or_ge first last with present | absent
    · exact tiles.opens present
    · obtain rfl : first = last := Nat.le_antisymm tiles.ordered absent
      exact joins.trans (tiles.empty rfl).symm
  closes := fun _ => by rw [Nat.add_sub_cancel]
  empty := fun absent => absurd tiles.ordered (by omega)

/-- The last range moves its end. -/
theorem stretch (present : first < last)
    {stop' : Nat → Nat} (same : ∀ index, index + 1 < last → stop' index = stop index)
    (proper : start (last - 1) < stop' (last - 1)) :
    Tiles start stop' first last low (stop' (last - 1)) where
  ordered := tiles.ordered
  proper := by
    intro index from_first to_last
    rcases Nat.lt_or_ge (index + 1) last with inside | atEnd
    · rw [same index inside]
      exact tiles.proper index from_first to_last
    · obtain rfl : index = last - 1 := by omega
      exact proper
  joined := by
    intro index from_first to_last
    rw [same index to_last]
    exact tiles.joined index from_first to_last
  opens := tiles.opens
  closes := fun _ => rfl
  empty := fun absent => absurd present (by omega)

/-- The ranges before `cut` are given up. -/
theorem drop {cut : Nat} (present : first < cut)
    (inside : cut ≤ last) : Tiles start stop cut last (stop (cut - 1)) high where
  ordered := inside
  proper := fun index from_cut => tiles.proper index (by omega)
  joined := fun index from_cut => tiles.joined index (by omega)
  opens := by
    intro before
    have := tiles.joined (cut - 1) (by omega) (by omega)
    rwa [Nat.sub_add_cancel (by omega)] at this
  closes := fun before => tiles.closes (by omega)
  empty := by
    rintro rfl
    exact tiles.closes present

theorem stop_le_start {left right : Nat}
    (from_first : first ≤ left) (order : left < right) (to_last : right < last) :
    stop left ≤ start right := by
  induction right, order using Nat.le_induction with
  | base => exact (tiles.joined left from_first to_last).ge
  | succ right order ih =>
    calc stop left ≤ start right := ih (by omega)
      _ ≤ stop right := (tiles.proper right (by omega) (by omega)).le
      _ = start (right + 1) := (tiles.joined right (by omega) to_last).symm

theorem low_le_start {index : Nat}
    (from_first : first ≤ index) (to_last : index < last) : low ≤ start index := by
  rcases Nat.eq_or_lt_of_le from_first with rfl | later
  · exact (tiles.opens to_last).ge
  · have := tiles.stop_le_start le_rfl later to_last
    have := tiles.proper first le_rfl (by omega)
    have := tiles.opens (by omega)
    omega

theorem stop_le_high {index : Nat}
    (from_first : first ≤ index) (to_last : index < last) : stop index ≤ high := by
  have closes := tiles.closes (by omega)
  rcases Nat.lt_or_ge (index + 1) last with earlier | atEnd
  · have := tiles.stop_le_start from_first (show index < last - 1 by omega) (by omega)
    have := tiles.proper (last - 1) (by omega) (by omega)
    omega
  · obtain rfl : index = last - 1 := by omega
    exact closes.le

theorem low_le_high : low ≤ high := by
  rcases Nat.lt_or_ge first last with present | absent
  · have := tiles.low_le_start le_rfl present
    have := tiles.proper first le_rfl present
    have := tiles.stop_le_high le_rfl present
    omega
  · exact (tiles.empty (Nat.le_antisymm tiles.ordered absent)).le

/-- The ranges cover exactly `[low, high)`. -/
theorem mem_iff (point : Nat) : (low ≤ point ∧ point < high) ↔
      ∃ index, first ≤ index ∧ index < last ∧ start index ≤ point ∧ point < stop index := by
  constructor
  · rintro ⟨above, below⟩
    by_contra uncovered
    push Not at uncovered
    -- every range ends at or before the point, the last one included
    have passed : ∀ index, first ≤ index → index < last → stop index ≤ point := by
      intro index from_first to_last
      induction index, from_first using Nat.le_induction with
      | base => exact uncovered first le_rfl to_last ((tiles.opens to_last).le.trans above)
      | succ index from_first ih =>
        refine uncovered (index + 1) (by omega) to_last ?_
        exact (tiles.joined index from_first to_last).le.trans (ih (by omega))
    rcases Nat.lt_or_ge first last with present | absent
    · have := passed (last - 1) (by omega) (by omega)
      have := tiles.closes present
      omega
    · have := tiles.empty (Nat.le_antisymm tiles.ordered absent)
      omega
  · rintro ⟨index, from_first, to_last, above, below⟩
    exact ⟨(tiles.low_le_start from_first to_last).trans above,
      below.trans_le (tiles.stop_le_high from_first to_last)⟩

end

end Tiles

end OpenGauss.Lib
