import Mathlib.Tactic

/-! A search that halves a window of positions, both ends included, and is led by readings at the
middles. Next to a middle that reads `lt` the window may become empty, and then it never ends. -/

namespace OpenGauss.Lib.HalvingSearch

/-- `eq` where the middle is the one looked for, `lt` where that lies before it; `none` is a
search that needs more steps than `fuel`. -/
def search (reading : Nat → Ordering) : Nat → Nat → Nat → Option Bool
  | 0, _, _ => none
  | fuel + 1, low, high =>
    if low = high then some (reading low == .eq)
    else
      match reading ((low + high) / 2) with
      | .eq => some true
      | .lt => search reading fuel low ((low + high) / 2 - 1)
      | .gt => search reading fuel ((low + high) / 2 + 1) high

/-- The middles met when `count` positions from `first` on are halved towards an aim. -/
def middles (aim : Nat → Ordering) (first count : Nat) : List Nat :=
  if count ≤ 1 then []
  else
    let mid := first + (count - 1) / 2
    mid :: match aim mid with
      | .eq => []
      | .lt => middles aim first ((count - 1) / 2)
      | .gt => middles aim (mid + 1) (count / 2)
termination_by count

/-- Towards the gap before position `gap`. -/
def towardsGap (gap position : Nat) : Ordering := if gap ≤ position then .lt else .gt

variable {reading aim : Nat → Ordering}

theorem middles_short {first count : Nat} (short : count ≤ 1) : middles aim first count = [] := by
  rw [middles, if_pos short]

variable {first count position : Nat} {place : Nat} {found : Bool} {mid : Nat}

theorem mem_middles_left (long : 1 < count) (left : aim (first + (count - 1) / 2) = .lt) :
    position ∈ middles aim first count ↔
      position = first + (count - 1) / 2 ∨ position ∈ middles aim first ((count - 1) / 2) := by
  rw [middles, if_neg (not_le.mpr long)]
  simp only [left, List.mem_cons]

theorem mem_middles_right (long : 1 < count) (right : aim (first + (count - 1) / 2) = .gt) :
    position ∈ middles aim first count ↔ position = first + (count - 1) / 2 ∨
        position ∈ middles aim (first + (count - 1) / 2 + 1) (count / 2) := by
  rw [middles, if_neg (not_le.mpr long)]
  simp only [right, List.mem_cons]

/-- The last position of a window is never a middle. -/
theorem bounds_of_mem_middles (member : position ∈ middles aim first count) :
    first ≤ position ∧ position + 1 < first + count := by
  induction count using Nat.strong_induction_on generalizing first with
  | _ count hyp =>
    by_cases short : count ≤ 1
    · rw [middles_short short] at member
      cases member
    · have long : 1 < count := not_le.mp short
      rcases way : aim (first + (count - 1) / 2) with _ | _ | _
      · rcases (mem_middles_left long way).mp member with here | deeper
        · omega
        · have inside := hyp ((count - 1) / 2) (by omega) deeper
          omega
      · rw [middles, if_neg short] at member
        simp only [way, List.mem_singleton] at member
        omega
      · rcases (mem_middles_right long way).mp member with here | deeper
        · omega
        · have inside := hyp (count / 2) (by omega) deeper
          omega

/-- With some number of steps the search ends with `found`. -/
def Ends (reading : Nat → Ordering) (low high : Nat) (found : Bool) : Prop :=
  ∃ fuel, search reading fuel low high = some found

theorem ends_here : Ends reading place place found ↔ (reading place == .eq) = found := by
  constructor
  · rintro ⟨_ | fuel, ended⟩
    · cases ended
    · rw [search, if_pos rfl] at ended
      exact Option.some.inj ended
  · intro same
    exact ⟨1, by rw [search, if_pos rfl, same]⟩

theorem ends_step {low high : Nat} (apart : low ≠ high) : Ends reading low high found ↔
      match reading ((low + high) / 2) with
      | .eq => found = true
      | .lt => Ends reading low ((low + high) / 2 - 1) found
      | .gt => Ends reading ((low + high) / 2 + 1) high found := by
  constructor
  · rintro ⟨_ | fuel, ended⟩
    · cases ended
    · rw [search, if_neg apart] at ended
      split at ended
      · exact (Option.some.inj ended).symm
      · exact ⟨fuel, ended⟩
      · exact ⟨fuel, ended⟩
  · intro after
    split at after
    · exact ⟨1, by rw [search, if_neg apart]; simp_all⟩
    · obtain ⟨fuel, ended⟩ := after
      exact ⟨fuel + 1, by rw [search, if_neg apart]; simp_all⟩
    · obtain ⟨fuel, ended⟩ := after
      exact ⟨fuel + 1, by rw [search, if_neg apart]; simp_all⟩

/-- Once the window is empty the same middle is read for ever. -/
theorem not_ends_of_empty (after : reading place = .gt) : ¬ Ends reading (place + 1) place found := by
  rintro ⟨fuel, ended⟩
  induction fuel with
  | zero => cases ended
  | succ fuel hyp =>
    rw [search, if_neg (by omega), show (place + 1 + place) / 2 = place by omega, after] at ended
    exact hyp ended

/-- No reading of the window, nor of the position before it, is `eq`, and the position before it
was left behind. -/
structure Misses (reading : Nat → Ordering) (low high : Nat) : Prop where
  rejected : ∀ position, low ≤ position + 1 → position ≤ high → reading position ≠ .eq
  behind : ∀ position, position + 1 = low → reading position = .gt

variable {low high first count place gap position : Nat}

theorem Misses.left (misses : Misses reading low high) (inside : mid ≤ high) :
    Misses reading low (mid - 1) :=
  ⟨fun position above below => misses.rejected position above (by omega), misses.behind⟩

theorem Misses.right (misses : Misses reading low high) (inside : low ≤ mid + 1)
    (after : reading mid = .gt) : Misses reading (mid + 1) high :=
  ⟨fun position above below => misses.rejected position (by omega) below, fun position next => by
    rw [Nat.succ.inj next]
    exact after⟩

theorem Misses.of_others (others : ∀ position, position ≠ place → reading position ≠ .eq)
    (missed : reading place ≠ .eq)
    (behind : ∀ position, position + 1 = low → reading position = .gt) : Misses reading low high := by
  refine ⟨fun position _ _ => ?_, behind⟩
  by_cases here : position = place
  · rw [here]
    exact missed
  · exact others position here

theorem Misses.not_ends_true (misses : Misses reading low high) (window : low ≤ high + 1) :
    ¬ Ends reading low high true := by
  rintro ⟨fuel, ended⟩
  induction fuel generalizing low high with
  | zero => cases ended
  | succ fuel hyp =>
    rw [search] at ended
    split at ended
    · rename_i meet
      have hit : reading low = .eq := by simpa using Option.some.inj ended
      exact misses.rejected low (by omega) (by omega) hit
    · rename_i apart
      split at ended
      · rename_i hit
        exact misses.rejected _ (by omega) (by omega) hit
      · rename_i before
        have inside : low ≤ (low + high) / 2 := by
          by_contra empty
          have after := misses.behind ((low + high) / 2) (by omega)
          rw [before] at after
          cases after
        exact hyp (misses.left (by omega)) (by omega) ended
      · exact hyp (misses.right (by omega) ‹_›) (by omega) ended

/-- The search stands between two middles, with nothing left to halve. -/
def Wedged (gap first count : Nat) : Prop :=
  0 < gap ∧ gap ∈ middles (towardsGap gap) first count ∧ gap - 1 ∈ middles (towardsGap gap) first count

/-- Inside a larger search the position before the window counts as a middle met. -/
private theorem ends_false_window (misses : Misses reading first (first + count - 1))
    (above : first ≤ gap) (below : gap ≤ first + count)
    (led : ∀ mid ∈ middles (towardsGap gap) first count, reading mid = towardsGap gap mid) :
    Ends reading first (first + count - 1) false ↔
      ¬ (0 < gap ∧ (count = 0 ∨ gap ∈ middles (towardsGap gap) first count ∧
        (gap = first ∨ gap - 1 ∈ middles (towardsGap gap) first count))) := by
  induction count using Nat.strong_induction_on generalizing first with
  | _ count hyp =>
    by_cases short : count ≤ 1
    · rw [middles_short short]
      rcases Nat.le_one_iff_eq_zero_or_eq_one.mp short with rfl | rfl
      · obtain rfl : gap = first := by omega
        rcases gap with _ | place
        · have miss := misses.rejected 0 (by omega) (by omega)
          simpa [ends_here] using miss
        · have stuck : ¬ Ends reading (place + 1) place false :=
            not_ends_of_empty (misses.behind place rfl)
          simpa using stuck
      · have miss := misses.rejected first (by omega) (by omega)
        simpa [ends_here] using miss
    · have long : 1 < count := not_le.mp short
      have mid : (first + (first + count - 1)) / 2 = first + (count - 1) / 2 := by omega
      rw [ends_step (by omega), mid]
      by_cases left : gap ≤ first + (count - 1) / 2
      · have way : towardsGap gap (first + (count - 1) / 2) = .lt := if_pos left
        simp only [mem_middles_left long way] at led ⊢
        rw [led _ (.inl rfl), way]
        have deeper := hyp ((count - 1) / 2) (by omega) (misses.left (by omega)) above left
          fun mid member => led mid (.inr member)
        dsimp only
        rw [deeper]
        have inside (position : Nat)
            (member : position ∈ middles (towardsGap gap) first ((count - 1) / 2)) :=
          bounds_of_mem_middles member
        by_cases here : gap = first + (count - 1) / 2
        · -- The middle itself is the right neighbour, and its left neighbour ends the window.
          have apart : gap ∉ middles (towardsGap gap) first ((count - 1) / 2) := fun member => by
            have := inside gap member
            omega
          have last : gap - 1 ∉ middles (towardsGap gap) first ((count - 1) / 2) := fun member => by
            have := inside (gap - 1) member
            omega
          have start : (count - 1) / 2 = 0 ↔ gap = first := by omega
          have full : count ≠ 0 := by omega
          refine not_congr (and_congr_right fun positive => ?_)
          have other : gap - 1 ≠ first + (count - 1) / 2 := by omega
          simp only [apart, last, iff_true_intro here, other, full, start, true_and,
            false_and, false_or, or_false]
        · have nonempty : (count - 1) / 2 ≠ 0 := by omega
          have other : gap - 1 ≠ first + (count - 1) / 2 := by omega
          have full : count ≠ 0 := by omega
          simp only [nonempty, here, other, full, false_or]
      · have way : towardsGap gap (first + (count - 1) / 2) = .gt := if_neg left
        simp only [mem_middles_right long way] at led ⊢
        rw [led _ (.inl rfl), way]
        have window : first + (count - 1) / 2 + 1 + count / 2 = first + count := by omega
        have deeper := hyp (count / 2) (by omega)
          (by rw [window]; exact misses.right (by omega) (led _ (.inl rfl) ▸ way)) (by omega)
          (by omega) fun mid member => led mid (.inr member)
        rw [window] at deeper
        dsimp only
        rw [deeper]
        have nonempty : count / 2 ≠ 0 := by omega
        have full : count ≠ 0 := by omega
        have here : gap ≠ first + (count - 1) / 2 := by omega
        have start : gap ≠ first := by omega
        have neighbour : gap - 1 = first + (count - 1) / 2 ↔ gap = first + (count - 1) / 2 + 1 := by omega
        simp only [nonempty, full, here, start, neighbour, false_or]

/-- Without the entry the search ends just where it is not wedged. -/
theorem ends_false_iff (misses : Misses reading 0 (count - 1)) (below : gap ≤ count) (nonempty : count ≠ 0)
    (led : ∀ mid ∈ middles (towardsGap gap) 0 count, reading mid = towardsGap gap mid) :
    Ends reading 0 (count - 1) false ↔ ¬ Wedged gap 0 count := by
  have whole := @ends_false_window reading 0 count gap (by simpa using misses)
    (Nat.zero_le gap) (by omega) led
  rw [Nat.zero_add] at whole
  rw [whole, Wedged]
  refine not_congr (and_congr_right fun positive => ?_)
  simp only [nonempty, positive.ne', false_or]

/-- Some gap is the one the readings lead to. -/
theorem exists_gap (misses : Misses reading first (first + count - 1)) :
    ∃ gap, first ≤ gap ∧ gap ≤ first + count ∧
      ∀ mid ∈ middles (towardsGap gap) first count, reading mid = towardsGap gap mid := by
  induction count using Nat.strong_induction_on generalizing first with
  | _ count hyp =>
    by_cases short : count ≤ 1
    · exact ⟨first, le_rfl, Nat.le_add_right _ _, fun mid member => by
        rw [middles_short short] at member
        cases member⟩
    · have long : 1 < count := not_le.mp short
      rcases way : reading (first + (count - 1) / 2) with _ | _ | _
      · obtain ⟨gap, above, below, led⟩ :=
          hyp ((count - 1) / 2) (by omega) (misses.left (by omega))
        have left : towardsGap gap (first + (count - 1) / 2) = .lt := if_pos below
        refine ⟨gap, above, by omega, fun mid member => ?_⟩
        rcases (mem_middles_left long left).mp member with rfl | deeper
        · rw [way, left]
        · exact led mid deeper
      · exact absurd way (misses.rejected _ (by omega) (by omega))
      · have window : first + (count - 1) / 2 + 1 + count / 2 = first + count := by omega
        obtain ⟨gap, above, below, led⟩ :=
          hyp (count / 2) (by omega) (by rw [window]; exact misses.right (by omega) way)
        have right : towardsGap gap (first + (count - 1) / 2) = .gt := if_neg (by omega)
        refine ⟨gap, by omega, by omega, fun mid member => ?_⟩
        rcases (mem_middles_right long right).mp member with rfl | deeper
        · rw [way, right]
        · exact led mid deeper

/-- An entry is found just where its own reading takes it, and no middle before it leads away. -/
theorem ends_true_iff (inside : first ≤ place ∧ place < first + count)
    (others : ∀ position, position ≠ place → reading position ≠ .eq)
    (beyond : ∀ position, place < position → position < first + count → reading position = .lt)
    (behind : ∀ position, position + 1 = first → reading position = .gt) :
    Ends reading first (first + count - 1) true ↔ reading place = .eq ∧
        ∀ mid ∈ middles (compare place) first count, mid < place → reading mid = .gt := by
  induction count using Nat.strong_induction_on generalizing first with
  | _ count hyp =>
    by_cases short : count ≤ 1
    · obtain rfl : count = 1 := by omega
      obtain rfl : first = place := by omega
      rw [middles_short short, Nat.add_sub_cancel, ends_here]
      simp
    · have long : 1 < count := not_le.mp short
      have mid : (first + (first + count - 1)) / 2 = first + (count - 1) / 2 := by omega
      have window : first + (count - 1) / 2 + 1 + count / 2 = first + count := by omega
      rw [ends_step (by omega), mid]
      rcases lt_trichotomy place (first + (count - 1) / 2) with left | here | right
      · have way : compare place (first + (count - 1) / 2) = .lt := Nat.compare_eq_lt.mpr left
        rw [beyond _ left (by omega)]
        dsimp only
        rw [hyp ((count - 1) / 2) (by omega) ⟨inside.1, left⟩
          (fun position after below => beyond position after (by omega)) behind]
        refine and_congr_right fun _ => forall_congr' fun mid => ?_
        rw [mem_middles_left long way, or_imp, and_iff_right]
        omega
      · have way : compare place (first + (count - 1) / 2) = .eq := compare_eq_iff_eq.mpr here
        have alone : ∀ mid ∈ middles (compare place) first count, mid < place → reading mid = .gt := by
          rw [middles, if_neg short]
          simp only [way, List.mem_singleton]
          omega
        rw [← here, and_iff_left alone]
        rcases read : reading place with _ | _ | _
        · have misses : Misses reading first (place - 1) :=
            .of_others others (by rw [read]; decide) behind
          simpa using misses.not_ends_true (by omega)
        · simp
        · have misses : Misses reading (place + 1) (first + count - 1) :=
            .of_others others (by rw [read]; decide) fun position next => by
              rw [Nat.succ.inj next, read]
          simpa using misses.not_ends_true (by omega)
      · have way : compare place (first + (count - 1) / 2) = .gt := Nat.compare_eq_gt.mpr right
        simp only [mem_middles_right long way]
        rcases read : reading (first + (count - 1) / 2) with _ | _ | _
        · -- Led away before the entry: it lies outside the window that is left.
          have misses : Misses reading first (first + (count - 1) / 2 - 1) :=
            ⟨fun position _ below => others position (by omega), behind⟩
          have away := misses.not_ends_true (by omega)
          simp only [away, false_iff]
          intro ⟨_, led⟩
          have straight := led _ (.inl rfl) right
          rw [read] at straight
          cases straight
        · exact absurd read (others _ (by omega))
        · have deeper := @hyp (count / 2) (by omega) (first + (count - 1) / 2 + 1) (by omega)
            (fun position after below => beyond position after (by omega))
            (fun position next => by rw [Nat.succ.inj next, read])
          rw [window] at deeper
          dsimp only
          rw [deeper]
          refine and_congr_right fun _ => forall_congr' fun mid => ?_
          rw [or_imp, and_iff_right]
          rintro rfl _
          exact read

end OpenGauss.Lib.HalvingSearch
