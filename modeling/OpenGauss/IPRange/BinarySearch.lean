import OpenGauss.IPRange.Operators
import OpenGauss.Lib.HalvingSearch

/-! `IPRange::binary_search` over ranges in ascending order. -/

namespace OpenGauss.IPRange

open IPV6
open Lib.HalvingSearch (Ends Misses Wedged middles search towardsGap)

/-- The loop from `i` and `j`; `none` where it needs more rounds than the fuel gives. -/
def binarySearchLoop (ranges : List Range) (ip : IPV6) : Nat → Nat → Nat → Option Bool
  | 0, _, _ => none
  | fuel + 1, i, j =>
    if i = j then do
      let range ← ranges[i]?
      some (decide (range.fromIp ≤ ip ∧ ip ≤ range.toIp))
    else do
      let mid := (i + j) / 2
      let range ← ranges[mid]?
      if range.fromIp ≤ ip ∧ ip ≤ range.toIp then some true
      else if ip < range.fromIp then
        binarySearchLoop ranges ip fuel i (if 0 < mid then mid - 1 else mid)
      else binarySearchLoop ranges ip fuel (mid + 1) j

def binarySearch (fuel : Nat) (ranges : List Range) (ip : IPV6) : Option Bool :=
  binarySearchLoop ranges ip fuel 0 (ranges.length - 1)

/-- Ranges that run upwards, each behind the one before it. -/
structure Ascending (ranges : List Range) : Prop where
  upwards : ∀ range ∈ ranges, range.fromIp.number ≤ range.toIp.number
  apart : ranges.Pairwise fun range later => range.toIp.number < later.fromIp.number

/-- The search ends, and says whether some range holds the address. -/
def Decides (ranges : List Range) (ip : IPV6) : Prop :=
  ∃ fuel found, binarySearch fuel ranges ip = some found ∧
    (found = true ↔ ∃ range ∈ ranges, ip ∈ range.holds)

section Reading

variable {ranges : List Range} {ip : IPV6}

/-- What the comparisons say of the address and the range at a position. -/
def reading (ranges : List Range) (ip : IPV6) (position : Nat) : Ordering :=
  match ranges[position]? with
  | none => .gt
  | some range =>
    if range.fromIp ≤ ip ∧ ip ≤ range.toIp then .eq else if ip < range.fromIp then .lt else .gt

theorem binarySearchLoop_eq {fuel i j : Nat} (low : i < ranges.length) (high : j < ranges.length) :
    binarySearchLoop ranges ip fuel i j = search (reading ranges ip) fuel i j := by
  induction fuel generalizing i j with
  | zero => rfl
  | succ fuel hyp =>
    rw [binarySearchLoop, search]
    by_cases meet : i = j
    · rw [if_pos meet, if_pos meet, reading, List.getElem?_eq_getElem low]
      dsimp only [Option.bind_eq_bind, Option.bind_some]
      split_ifs <;> simp_all
    · have inside : (i + j) / 2 < ranges.length := by omega
      have step : (if 0 < (i + j) / 2 then (i + j) / 2 - 1 else (i + j) / 2) =
          (i + j) / 2 - 1 := by split <;> omega
      simp only [if_neg meet, reading, List.getElem?_eq_getElem inside, Option.bind_eq_bind,
        Option.bind_some, step]
      split_ifs
      · rfl
      · exact hyp low (by omega)
      · exact hyp (by omega) high

theorem binarySearch_eq (fuel : Nat) (ranges : List Range) (ip : IPV6) (nonempty : ranges ≠ []) :
    binarySearch fuel ranges ip = search (reading ranges ip) fuel 0 (ranges.length - 1) := by
  have positive := List.length_pos_iff.mpr nonempty
  exact binarySearchLoop_eq positive (by omega)

/-- The comparisons take in no address that the numbers leave out. -/
theorem mem_holds_of_reading {position : Nat} (hit : reading ranges ip position = .eq) :
    ∃ range, ranges[position]? = some range ∧ ip ∈ range.holds := by
  unfold reading at hit
  split at hit
  · cases hit
  · rename_i range present
    refine ⟨range, present, ?_⟩
    split_ifs at hit with accepts
    exact ⟨le_of_not_gt fun less => accepts.1 (lt_of_number_lt less),
      le_of_not_gt fun less => accepts.2 (lt_of_number_lt less)⟩

theorem reading_lt_of_number_lt {position : Nat} {range : Range}
    (present : ranges[position]? = some range) (less : ip.number < range.fromIp.number) :
    reading ranges ip position = .lt := by
  have before := lt_of_number_lt less
  have outside : ¬ (range.fromIp ≤ ip ∧ ip ≤ range.toIp) := fun accepts => accepts.1 before
  simp only [reading, present, if_neg outside, if_pos before]

theorem Ascending.before (ascending : Ascending ranges) {first second : Nat} {range later : Range}
    (order : first < second) (present : ranges[first]? = some range)
    (laterPresent : ranges[second]? = some later) : range.toIp.number < later.fromIp.number := by
  obtain ⟨low, rfl⟩ := List.getElem?_eq_some_iff.mp present
  obtain ⟨high, rfl⟩ := List.getElem?_eq_some_iff.mp laterPresent
  exact List.pairwise_iff_getElem.mp ascending.apart first second low high order

/-- In ascending ranges an address has one place at most. -/
theorem Ascending.position_unique (ascending : Ascending ranges) {first second : Nat}
    {range other : Range} (present : ranges[first]? = some range)
    (otherPresent : ranges[second]? = some other) (holds : ip ∈ range.holds)
    (otherHolds : ip ∈ other.holds) : first = second := by
  rcases lt_trichotomy first second with less | same | more
  · have apart := ascending.before less present otherPresent
    exact absurd (otherHolds.1.trans holds.2) (not_le.mpr apart)
  · exact same
  · have apart := ascending.before more otherPresent present
    exact absurd (holds.1.trans otherHolds.2) (not_le.mpr apart)

section

variable {position : Nat} {range : Range} (present : ranges[position]? = some range)

include present

theorem reading_eq_iff : reading ranges ip position = .eq ↔ range.fromIp ≤ ip ∧ ip ≤ range.toIp := by
  simp only [reading, present]
  split_ifs <;> simp_all

theorem reading_lt_iff : reading ranges ip position = .lt ↔ ip < range.fromIp := by
  simp only [reading, present]
  split_ifs with accepts before
  · exact iff_of_false (by decide) accepts.1
  · exact iff_of_true rfl before
  · exact iff_of_false (by decide) before

theorem reading_gt_iff (missed : reading ranges ip position ≠ .eq) :
    reading ranges ip position = .gt ↔ ¬ ip < range.fromIp := by
  rw [← reading_lt_iff present]
  rcases read : reading ranges ip position with _ | _ | _ <;> simp_all

end

end Reading

/-- Range `place` holds the address and is reached: the comparisons accept it there, and at no
middle before it do they lead to the left. -/
structure Reached (ranges : List Range) (ip : IPV6) (place : Nat) (range : Range) : Prop where
  present : ranges[place]? = some range
  holds : ip ∈ range.holds
  accepted : range.fromIp ≤ ip ∧ ip ≤ range.toIp
  straight : ∀ mid ∈ middles (compare place) 0 ranges.length, mid < place →
    ∀ earlier ∈ ranges[mid]?, ¬ ip < earlier.fromIp

/-- No range holds the address, and of the two neighbours of the gap to which the comparisons
lead at most one is a middle on the way. -/
structure LandsClear (ranges : List Range) (ip : IPV6) (gap : Nat) : Prop where
  inside : gap ≤ ranges.length
  outside : ∀ range ∈ ranges, ip ∉ range.holds
  led : ∀ mid ∈ middles (towardsGap gap) 0 ranges.length,
    ∀ range ∈ ranges[mid]?, (ip < range.fromIp ↔ gap ≤ mid)
  clear : ¬ Wedged gap 0 ranges.length

section Search

variable {ranges : List Range} {ip : IPV6}

theorem decides_iff_ends (nonempty : ranges ≠ []) : Decides ranges ip ↔
    ∃ found, Ends (reading ranges ip) 0 (ranges.length - 1) found ∧
      (found = true ↔ ∃ range ∈ ranges, ip ∈ range.holds) := by
  constructor
  · rintro ⟨fuel, found, ended, right⟩
    exact ⟨found, ⟨fuel, binarySearch_eq fuel ranges ip nonempty ▸ ended⟩, right⟩
  · rintro ⟨found, ⟨fuel, ended⟩, right⟩
    exact ⟨fuel, found, binarySearch_eq fuel ranges ip nonempty ▸ ended, right⟩

theorem ends_true_iff_reached (ascending : Ascending ranges) {place : Nat} {range : Range}
    (present : ranges[place]? = some range) (holds : ip ∈ range.holds) :
    Ends (reading ranges ip) 0 (ranges.length - 1) true ↔ Reached ranges ip place range := by
  have inside : place < ranges.length := (List.getElem?_eq_some_iff.mp present).1
  have others (position : Nat) (other : position ≠ place) : reading ranges ip position ≠ .eq := by
    intro hit
    obtain ⟨found, otherPresent, otherHolds⟩ := mem_holds_of_reading hit
    exact other (ascending.position_unique otherPresent present otherHolds holds)
  have beyond (position : Nat) (after : place < position) (below : position < ranges.length) :
      reading ranges ip position = .lt := by
    have later := List.getElem?_eq_getElem below
    exact reading_lt_of_number_lt later (holds.2.trans_lt (ascending.before after present later))
  have window := @Lib.HalvingSearch.ends_true_iff (reading ranges ip) 0 ranges.length place
    ⟨Nat.zero_le place, by omega⟩ others
    (fun position after below => beyond position after (by omega))
    (fun position next => by cases next)
  rw [Nat.zero_add] at window
  have met (mid : Nat) (member : mid ∈ middles (compare place) 0 ranges.length) :
      ∃ earlier, ranges[mid]? = some earlier := by
    have bound := (Lib.HalvingSearch.bounds_of_mem_middles member).2
    exact ⟨_, List.getElem?_eq_getElem (by omega)⟩
  rw [window, reading_eq_iff present]
  constructor
  · rintro ⟨accepted, straight⟩
    refine ⟨present, holds, accepted, fun mid member before earlier found => ?_⟩
    exact (reading_gt_iff found (others mid before.ne)).mp (straight mid member before)
  · intro reached
    refine ⟨reached.accepted, fun mid member before => ?_⟩
    obtain ⟨earlier, found⟩ := met mid member
    exact (reading_gt_iff found (others mid before.ne)).mpr
      (reached.straight mid member before earlier found)

theorem misses_of_outside (outside : ∀ range ∈ ranges, ip ∉ range.holds) :
    Misses (reading ranges ip) 0 (ranges.length - 1) := by
  refine ⟨fun position _ _ hit => ?_, fun position next => by cases next⟩
  obtain ⟨range, present, holds⟩ := mem_holds_of_reading hit
  exact outside range (List.mem_of_getElem? present) holds

theorem ends_false_iff_landsClear (nonempty : ranges ≠ []) (outside : ∀ range ∈ ranges, ip ∉ range.holds) :
    Ends (reading ranges ip) 0 (ranges.length - 1) false ↔ ∃ gap, LandsClear ranges ip gap := by
  have misses := misses_of_outside outside
  have full : ranges.length ≠ 0 := (List.length_pos_iff.mpr nonempty).ne'
  have led_iff (gap mid : Nat) (member : mid ∈ middles (towardsGap gap) 0 ranges.length) :
      reading ranges ip mid = towardsGap gap mid ↔
        ∀ range ∈ ranges[mid]?, (ip < range.fromIp ↔ gap ≤ mid) := by
    have bound : mid + 1 < 0 + ranges.length := (Lib.HalvingSearch.bounds_of_mem_middles member).2
    have inside : mid < ranges.length := by omega
    have found := List.getElem?_eq_getElem inside
    have missed := misses.rejected mid (by omega) (by omega)
    rw [found]
    simp only [Option.mem_some_iff, forall_eq', ← reading_lt_iff found, towardsGap]
    split_ifs with after
    · simp [after]
    · rcases read : reading ranges ip mid with _ | _ | _ <;> simp_all
  constructor
  · intro ended
    obtain ⟨gap, -, below, led⟩ := @Lib.HalvingSearch.exists_gap (reading ranges ip) 0
      ranges.length (by simpa using misses)
    rw [Nat.zero_add] at below
    exact ⟨gap, below, outside, fun mid member => (led_iff gap mid member).mp (led mid member),
      (Lib.HalvingSearch.ends_false_iff misses below full led).mp ended⟩
  · rintro ⟨gap, clear⟩
    exact (Lib.HalvingSearch.ends_false_iff misses clear.inside full fun mid member =>
      (led_iff gap mid member).mpr (clear.led mid member)).mpr clear.clear

end Search

/-- The search decides exactly where it reaches the range that holds the address, or lands clear
of two neighbouring middles. -/
theorem binarySearch_decides_iff (ranges : List Range) (ip : IPV6) (nonempty : ranges ≠ [])
    (ascending : Ascending ranges) :
    Decides ranges ip ↔
      (∃ place range, Reached ranges ip place range) ∨ ∃ gap, LandsClear ranges ip gap := by
  rw [decides_iff_ends nonempty]
  by_cases held : ∃ range ∈ ranges, ip ∈ range.holds
  · obtain ⟨range, member, holds⟩ := held
    obtain ⟨place, present⟩ := List.mem_iff_getElem?.mp member
    have reached := ends_true_iff_reached ascending present holds
    constructor
    · rintro ⟨found, ended, right⟩
      obtain rfl := right.mpr ⟨range, member, holds⟩
      exact .inl ⟨place, range, reached.mp ended⟩
    · rintro (⟨other, found, there⟩ | ⟨gap, clear⟩)
      · obtain rfl := ascending.position_unique there.present present there.holds holds
        obtain rfl : found = range := by
          have same := there.present
          rw [present] at same
          exact (Option.some.inj same).symm
        exact ⟨true, reached.mpr there, iff_of_true rfl ⟨found, member, holds⟩⟩
      · exact absurd holds (clear.outside range member)
  · have outside (range : Range) (member : range ∈ ranges) : ip ∉ range.holds :=
      fun holds => held ⟨range, member, holds⟩
    have lands := ends_false_iff_landsClear nonempty outside
    constructor
    · rintro ⟨found, ended, right⟩
      obtain rfl : found = false := by
        rw [← Bool.not_eq_true]
        exact fun hit => held (right.mp hit)
      exact .inr (lands.mp ended)
    · rintro (⟨place, range, there⟩ | clear)
      · exact absurd there.holds (outside range (List.mem_of_getElem? there.present))
      · exact ⟨false, lands.mpr clear, iff_of_false (by decide) held⟩

def sampleV4 (word : UInt32) : IPV6 := ⟨word, 0x0000FFFF, 0, 0⟩

/-- Four single IPv4 addresses, two apart from each other. -/
def fourRanges : List Range :=
  [2, 4, 6, 8].map fun word => ⟨sampleV4 word, sampleV4 word⟩

theorem ascending_fourRanges : Ascending fourRanges := by
  constructor <;> decide

theorem binarySearch_decides_iff_sample : Decides fourRanges (sampleV4 6) := by
  refine (binarySearch_decides_iff fourRanges (sampleV4 6) (by decide) ascending_fourRanges).mpr
    (.inl ⟨2, ⟨sampleV4 6, sampleV4 6⟩, rfl, ⟨le_rfl, le_rfl⟩, by decide,
      fun mid member before => ?_⟩)
  have met : middles (compare 2) 0 4 = [1, 2] := by
    simp [middles, Nat.compare_eq_gt.mpr]
  change mid ∈ middles (compare 2) 0 4 at member
  obtain rfl : mid = 1 := by
    rw [met] at member
    simp only [List.mem_cons, List.not_mem_nil, or_false] at member
    omega
  intro earlier found
  obtain rfl := Option.some.inj found
  decide

/-- Between the second and the third range the search never ends. -/
theorem binarySearch_spins : Ascending fourRanges ∧ ¬ Decides fourRanges (sampleV4 5) := by
  refine ⟨ascending_fourRanges, fun decides => ?_⟩
  obtain ⟨found, ended, -⟩ := (decides_iff_ends (by decide)).mp decides
  have second : reading fourRanges (sampleV4 5) 1 = .gt := by decide
  have third : reading fourRanges (sampleV4 5) 2 = .lt := by decide
  change Ends (reading fourRanges (sampleV4 5)) 0 3 found at ended
  have right := (Lib.HalvingSearch.ends_step (by decide)).mp ended
  rw [show (0 + 3) / 2 = 1 from rfl, second] at right
  have left := (Lib.HalvingSearch.ends_step (by decide)).mp right
  rw [show (1 + 1 + 3) / 2 = 2 from rfl, third] at left
  exact Lib.HalvingSearch.not_ends_of_empty second left

end OpenGauss.IPRange
