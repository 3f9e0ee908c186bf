import OpenGauss.IPRange.Ranges
import OpenGauss.Lib.Intervals

/-! The ranges of an `IPRange` as a set of IPv4 addresses, which are numbered by their lowest word.
-/

namespace OpenGauss.IPRange

open Lib (Span IntervalSet)

namespace IPV6

variable {lhs rhs ip : IPV6}

section

variable (left : lhs.IsIPv4) (right : rhs.IsIPv4)

include left right

theorem lt_iff : lhs < rhs ↔ lhs.a.toNat < rhs.a.toNat := by
  change lhs.upper < rhs.upper ∨ lhs.lower < rhs.lower ↔ _
  obtain ⟨b, c, d⟩ := left
  obtain ⟨b', c', d'⟩ := right
  simp only [upper, lower, b, c, d, b', c', d']
  omega

theorem le_iff : lhs ≤ rhs ↔ lhs.a.toNat ≤ rhs.a.toNat := by
  change ¬ rhs < lhs ↔ _
  rw [lt_iff right left, not_lt]

theorem max_isIPv4 : (max lhs rhs).IsIPv4 := by
  unfold max
  split
  · exact right
  · exact left

theorem min_isIPv4 : (min lhs rhs).IsIPv4 := by
  unfold min
  split
  · exact right
  · exact left

theorem max_number : (max lhs rhs).a.toNat = Max.max lhs.a.toNat rhs.a.toNat := by
  unfold max
  split
  · rename_i less
    exact (max_eq_right ((lt_iff left right).mp less).le).symm
  · rename_i least
    exact (max_eq_left ((le_iff right left).mp least)).symm

theorem min_number : (min lhs rhs).a.toNat = Min.min lhs.a.toNat rhs.a.toNat := by
  unfold min
  split
  · rename_i less
    exact (min_eq_right ((lt_iff right left).mp less).le).symm
  · rename_i least
    exact (min_eq_left ((le_iff left right).mp least)).symm

end

theorem succ_isIPv4 (ipv4 : ip.IsIPv4) : ip.succ.IsIPv4 := by
  rw [succ, add, if_pos ipv4.1]
  exact ⟨rfl, rfl, rfl⟩

theorem pred_isIPv4 (ipv4 : ip.IsIPv4) : ip.pred.IsIPv4 := by
  rw [pred, sub, if_pos ipv4.1]
  exact ⟨rfl, rfl, rfl⟩

/-- The addition wraps at the last address only. -/
theorem succ_number (ipv4 : ip.IsIPv4) {above : Nat} (below : ip.a.toNat < above)
    (bound : above < 2 ^ 32) : ip.succ.a.toNat = ip.a.toNat + 1 := by
  rw [succ, add, if_pos ipv4.1]
  change (ip.a + 1).toNat = _
  rw [UInt32.toNat_add, UInt32.toNat_one, Nat.mod_eq_of_lt (by omega)]

/-- The subtraction wraps at the first address only. -/
theorem pred_number (ipv4 : ip.IsIPv4) {below : Nat} (above : below < ip.a.toNat) :
    ip.pred.a.toNat = ip.a.toNat - 1 := by
  rw [pred, sub, if_pos ipv4.1]
  change (ip.a - 1).toNat = _
  have positive : (1 : UInt32) ≤ ip.a := UInt32.le_iff_toNat_le.mpr (Nat.one_le_of_lt above)
  rw [UInt32.toNat_sub_of_le _ _ positive, UInt32.toNat_one]

theorem isIPv4_of_between {low high : IPV6} (lowIs : low.IsIPv4) (highIs : high.IsIPv4)
    (above : low ≤ ip) (below : ip ≤ high) : ip.IsIPv4 := by
  have above' : ¬ (ip.upper < low.upper ∨ ip.lower < low.lower) := above
  have below' : ¬ (high.upper < ip.upper ∨ high.lower < ip.lower) := below
  obtain ⟨b, c, d⟩ := lowIs
  obtain ⟨b', c', d'⟩ := highIs
  simp only [upper, lower, b, c, d, b', c', d'] at above' below'
  have lowWord := low.a.toNat_lt
  have highWord := high.a.toNat_lt
  have word := ip.a.toNat_lt
  refine ⟨UInt32.toNat_inj.mp ?_, UInt32.toNat_inj.mp ?_, UInt32.toNat_inj.mp ?_⟩ <;>
    simp only [UInt32.reduceToNat] at * <;> omega

end IPV6

theorem maskRange_upwards {ip : IPV6} {cidr : UInt16} {range : Range}
    (masked : maskRange ⟨ip, ip⟩ cidr = some range) :
    range.fromIp.a.toNat ≤ range.toIp.a.toNat := by
  have kept (place : Nat) : (maskFrom ip.a place).toNat ≤ (maskTo ip.a place).toNat := by
    simp only [maskFrom, maskTo, UInt32.toNat_and, UInt32.toNat_or]
    exact Nat.and_le_left.trans Nat.left_le_or
  simp only [maskRange] at masked
  repeat' split at masked
  all_goals cases masked
  all_goals first
    | exact kept _
    | exact Nat.zero_le _

private theorem of_length_checked {text : List UInt8} {rest : Option Range} {range : Range}
    (parsed : (if maxRangeLen < text.length then none else rest) = some range) :
    rest = some range := by
  split at parsed
  · cases parsed
  · exact parsed

theorem parseSlash_upwards {libc : Libc} {text : List UInt8} {ptr : Nat} {range : Range}
    (parsed : parseSlash libc text ptr = some range) :
    range.fromIp.a.toNat ≤ range.toIp.a.toNat := by
  obtain ⟨ip, _, built⟩ := Option.bind_eq_some_iff.mp (of_length_checked parsed)
  cases built
  cases masked : maskRange ⟨ip, ip⟩ (UInt16.ofInt (libc.atoi (cString (text.drop (ptr + 1))))) with
  | none => exact le_rfl
  | some range => exact maskRange_upwards masked

theorem parseMask_upwards {libc : Libc} {text : List UInt8} {ptr : Nat} {range : Range}
    (parsed : parseMask libc text ptr = some range) :
    range.fromIp.a.toNat ≤ range.toIp.a.toNat := by
  have masked (word other : UInt32) : (word &&& other).toNat ≤ (word ||| ~~~other).toNat := by
    simp only [UInt32.toNat_and, UInt32.toNat_or]
    exact Nat.and_le_left.trans Nat.left_le_or
  obtain ⟨ip, _, masking⟩ := Option.bind_eq_some_iff.mp (of_length_checked parsed)
  obtain ⟨maskIp, _, built⟩ := Option.bind_eq_some_iff.mp masking
  split at built <;> cases built <;> exact masked _ _

/-- Reading a text gives a range whose ends are in order once they are IPv4 addresses. -/
theorem parseRange_upwards {libc : Libc} {text : List UInt8} {range : Range}
    (parsed : parseRange libc text = some range) (low : range.fromIp.IsIPv4)
    (high : range.toIp.IsIPv4) : range.fromIp ≤ range.toIp := by
  unfold parseRange at parsed
  split at parsed
  · exact (IPV6.le_iff low high).mpr (parseSlash_upwards parsed)
  · split at parsed
    · obtain ⟨first, _, read⟩ := Option.bind_eq_some_iff.mp (of_length_checked parsed)
      obtain ⟨second, _, checked⟩ := Option.bind_eq_some_iff.mp read
      split at checked <;> cases checked
      assumption
    · split at parsed
      · exact (IPV6.le_iff low high).mpr (parseMask_upwards parsed)
      · obtain ⟨ip, _, built⟩ := Option.bind_eq_some_iff.mp (of_length_checked parsed)
        cases built
        exact (IPV6.le_iff low high).mpr le_rfl

/-- A range of IPv4 addresses and the interval of their numbers. -/
structure Stands (range : Range) (interval : Span Nat) : Prop where
  low : range.fromIp.IsIPv4
  high : range.toIp.IsIPv4
  first : range.fromIp.a.toNat = interval.first
  last : range.toIp.a.toNat = interval.last

abbrev Represents : List Range → List (Span Nat) → Prop := List.Forall₂ Stands

namespace Stands

variable {range other : Range} {interval otherInterval : Span Nat}

theorem exists_interval (low : range.fromIp.IsIPv4) (high : range.toIp.IsIPv4)
    (upwards : range.fromIp ≤ range.toIp) : ∃ interval, Stands range interval :=
  ⟨⟨_, _, (IPV6.le_iff low high).mp upwards⟩, low, high, rfl, rfl⟩

section

variable (stands : Stands range interval)

include stands

theorem before_iff (otherStands : Stands other otherInterval) :
    range.toIp < other.fromIp ↔ interval.last < otherInterval.first := by
  rw [IPV6.lt_iff stands.high otherStands.low, stands.last, otherStands.first]

theorem from_le_iff (otherStands : Stands other otherInterval) :
    range.fromIp ≤ other.fromIp ↔ interval.first ≤ otherInterval.first := by
  rw [IPV6.le_iff stands.low otherStands.low, stands.first, otherStands.first]

theorem to_le_iff (otherStands : Stands other otherInterval) :
    range.toIp ≤ other.toIp ↔ interval.last ≤ otherInterval.last := by
  rw [IPV6.le_iff stands.high otherStands.high, stands.last, otherStands.last]

/-- An address is in the range when it is an IPv4 address with a number in the interval. -/
theorem mem_addresses (ip : IPV6) : ip ∈ range.addresses ↔ ip.IsIPv4 ∧ ip.a.toNat ∈ interval.points := by
  constructor
  · rintro ⟨above, below⟩
    have ipv4 := IPV6.isIPv4_of_between stands.low stands.high above below
    rw [IPV6.le_iff stands.low ipv4, stands.first] at above
    rw [IPV6.le_iff ipv4 stands.high, stands.last] at below
    exact ⟨ipv4, above, below⟩
  · rintro ⟨ipv4, above, below⟩
    rw [← stands.first, ← IPV6.le_iff stands.low ipv4] at above
    rw [← stands.last, ← IPV6.le_iff ipv4 stands.high] at below
    exact ⟨above, below⟩

variable (otherStands : Stands other otherInterval)
include otherStands

/-- The test both calls make: the later start lies past the earlier end. -/
theorem disjoint_iff :
    IPV6.min range.toIp other.toIp < IPV6.max range.fromIp other.fromIp ↔
      interval.last < otherInterval.first ∨ otherInterval.last < interval.first := by
  rw [IPV6.lt_iff (IPV6.min_isIPv4 stands.high otherStands.high)
    (IPV6.max_isIPv4 stands.low otherStands.low), IPV6.min_number stands.high otherStands.high,
    IPV6.max_number stands.low otherStands.low, stands.first, stands.last, otherStands.first,
    otherStands.last]
  have ordered := interval.ordered
  have otherOrdered := otherInterval.ordered
  omega

theorem handleAddIntersection_none
    (apart : interval.last < otherInterval.first ∨ otherInterval.last < interval.first) :
    handleAddIntersection range other = none :=
  if_pos ((stands.disjoint_iff otherStands).mpr apart)

theorem handleAddIntersection_some
    (meets : ¬ (interval.last < otherInterval.first ∨ otherInterval.last < interval.first)) :
    ∃ widened, handleAddIntersection range other = some widened ∧
      Stands widened (Span.hull interval otherInterval) := by
  refine ⟨_, if_neg (mt (stands.disjoint_iff otherStands).mp meets), ?_, ?_, ?_, ?_⟩
  · exact IPV6.min_isIPv4 stands.low otherStands.low
  · exact IPV6.max_isIPv4 stands.high otherStands.high
  · rw [IPV6.min_number stands.low otherStands.low, stands.first, otherStands.first]
    rfl
  · rw [IPV6.max_number stands.high otherStands.high, stands.last, otherStands.last]
    rfl

end

end Stands

theorem addLoop_pushed (newRange : Range) (weHadIntersection : Bool) (newRanges : List Range)
    (ranges : List Range) : addLoop newRange weHadIntersection newRanges ranges =
      newRanges ++ addLoop newRange weHadIntersection [] ranges := by
  induction ranges generalizing newRange weHadIntersection newRanges with
  | nil => cases weHadIntersection <;> simp [addLoop]
  | cons existRange rest ih =>
    simp only [addLoop]
    cases handleAddIntersection newRange existRange with
    | some widened => exact ih widened true newRanges
    | none =>
      dsimp only
      split
      · simp
      · split
        · simp
        · rw [ih, ih newRange false ([] ++ [existRange])]
          simp

section

variable {newRange : Range} {added : Span Nat} {ranges : List Range} {intervals : List (Span Nat)}
  (stands : Stands newRange added) (represents : Represents ranges intervals)
  (ascending : Span.Ascending intervals)

include stands represents ascending

/-- Once the new range has met an element, it starts before all elements still ahead. -/
theorem addLoop_met (ahead : ∀ interval ∈ intervals, added.first < interval.first) :
    Represents (addLoop newRange true [] ranges) (Span.insert added intervals) := by
  induction represents generalizing newRange added with
  | nil => exact .cons stands .nil
  | @cons existRange interval ranges intervals existStands represents ih =>
    have later := ahead interval List.mem_cons_self
    obtain ⟨apart, sorted⟩ := List.pairwise_cons.mp ascending
    have ordered := interval.ordered
    by_cases low : added.last < interval.first
    · rw [addLoop, stands.handleAddIntersection_none existStands (Or.inl low), Span.insert, if_pos low]
      exact .cons stands (.cons existStands represents)
    · have notHigh : ¬ interval.last < added.first := by omega
      obtain ⟨widened, found, wider⟩ := stands.handleAddIntersection_some existStands
        (not_or.mpr ⟨low, notHigh⟩)
      rw [addLoop, found, Span.insert, if_neg low, if_neg notHigh]
      apply ih wider sorted
      intro next member
      exact (min_le_left _ _).trans_lt (later.trans_le (ordered.trans (apart next member).le))

/-- The second early return of `add_range` keeps the loop from running off the end before it has
placed the new range. -/
theorem addLoop_unmet (placed : ∃ interval ∈ intervals, added.first ≤ interval.last) :
    Represents (addLoop newRange false [] ranges) (Span.insert added intervals) := by
  induction represents with
  | nil => simp at placed
  | @cons existRange interval ranges intervals existStands represents ih =>
    obtain ⟨apart, sorted⟩ := List.pairwise_cons.mp ascending
    have ordered := interval.ordered
    by_cases low : added.last < interval.first
    · rw [addLoop, stands.handleAddIntersection_none existStands (Or.inl low), Span.insert, if_pos low]
      simp only [Bool.false_eq_true, if_false, (stands.before_iff existStands).mpr low, if_true]
      exact .cons stands (.cons existStands represents)
    · by_cases high : interval.last < added.first
      · rw [addLoop, stands.handleAddIntersection_none existStands (Or.inr high),
          Span.insert, if_neg low, if_pos high]
        simp only [Bool.false_eq_true, if_false, mt (stands.before_iff existStands).mp low]
        rw [addLoop_pushed]
        refine .cons existStands (ih sorted ?_)
        obtain ⟨next, member, reaches⟩ := placed
        rcases List.mem_cons.mp member with rfl | member
        · omega
        · exact ⟨next, member, reaches⟩
      · obtain ⟨widened, found, wider⟩ := stands.handleAddIntersection_some existStands
          (not_or.mpr ⟨low, high⟩)
        rw [addLoop, found, Span.insert, if_neg low, if_neg high]
        apply addLoop_met wider represents sorted
        intro next member
        exact (min_le_right _ _).trans_lt (ordered.trans_lt (apart next member))

end

theorem insert_past {added : Span Nat} {intervals : List (Span Nat)}
    (past : ∀ interval ∈ intervals, interval.last < added.first) :
    Span.insert added intervals = intervals ++ [added] := by
  induction intervals with
  | nil => rfl
  | cons interval rest ih =>
    have here := past interval List.mem_cons_self
    have ordered := interval.ordered
    have addedOrdered := added.ordered
    rw [Span.insert, if_neg (by omega), if_pos here,
      ih fun next member => past next (List.mem_cons_of_mem _ member), List.cons_append]

/-- Comparing with the last range is comparing with all of them. -/
theorem past_iff {newRange back : Range} {added : Span Nat} {ranges : List Range}
    {intervals : List (Span Nat)} (stands : Stands newRange added)
    (represents : Represents ranges intervals) (ascending : Span.Ascending intervals)
    (last : ranges.getLast? = some back) :
    back.toIp < newRange.fromIp ↔ ∀ interval ∈ intervals, interval.last < added.first := by
  induction represents with
  | nil => cases last
  | @cons existRange interval ranges intervals existStands represents ih =>
    obtain ⟨apart, sorted⟩ := List.pairwise_cons.mp ascending
    cases represents with
    | nil =>
      obtain rfl : existRange = back := Option.some.inj last
      rw [existStands.before_iff stands, List.forall_mem_singleton]
    | @cons next nextInterval ranges intervals nextStands represents =>
      rw [List.getLast?_cons_cons] at last
      rw [ih sorted last, List.forall_mem_cons (a := interval)]
      refine ⟨fun past => ⟨?_, past⟩, fun past => past.2⟩
      exact ((apart nextInterval List.mem_cons_self).trans_le nextInterval.ordered).trans
        (past nextInterval List.mem_cons_self)

theorem addRange_represents {newRange : Range} {added : Span Nat} {ranges : List Range}
    {held : IntervalSet Nat} (stands : Stands newRange added)
    (represents : Represents ranges held.intervals) :
    Represents (addRange ranges newRange) (held.add added).intervals := by
  obtain ⟨intervals, ascending⟩ := held
  change Represents ranges intervals at represents
  change Represents _ (Span.insert added intervals)
  cases represents with
  | nil => exact .cons stands .nil
  | @cons front interval rest intervals frontStands represents =>
    have whole : Represents (front :: rest) (interval :: intervals) :=
      .cons frontStands represents
    obtain ⟨back, last⟩ : ∃ back, (front :: rest).getLast? = some back :=
      ⟨_, List.getLast?_eq_some_getLast (List.cons_ne_nil front rest)⟩
    simp only [addRange, List.head?_cons, last]
    by_cases low : added.last < interval.first
    · rw [if_pos ((stands.before_iff frontStands).mpr low), Span.insert, if_pos low]
      exact .cons stands whole
    · rw [if_neg (mt (stands.before_iff frontStands).mp low)]
      by_cases past : ∀ next ∈ interval :: intervals, next.last < added.first
      · rw [if_pos ((past_iff stands whole ascending last).mpr past), insert_past past]
        exact List.rel_append whole (.cons stands .nil)
      · rw [if_neg (mt (past_iff stands whole ascending last).mp past)]
        push Not at past
        exact addLoop_unmet stands whole ascending past

theorem handleRemoveIntersection_represents {removed range : Range}
    {gone interval : Span Nat} (removedStands : Stands removed gone)
    (stands : Stands range interval) :
    Represents (handleRemoveIntersection removed range) (Span.cut gone interval) := by
  have ordered := interval.ordered
  have goneOrdered := gone.ordered
  have lowWord := removed.fromIp.a.toNat_lt
  have highWord := range.toIp.a.toNat_lt
  have low := removedStands.first
  have high := removedStands.last
  unfold handleRemoveIntersection Span.cut
  simp only [removedStands.disjoint_iff stands, removedStands.from_le_iff stands,
    stands.to_le_iff removedStands]
  by_cases apart : gone.last < interval.first ∨ interval.last < gone.first
  · rw [if_pos apart, if_pos apart.symm]
    exact .cons stands .nil
  · rw [if_neg apart, if_neg (mt Or.symm apart)]
    have before (above : interval.first < gone.first) : Stands ⟨range.fromIp, removed.fromIp.pred⟩
          ⟨interval.first, Order.pred gone.first, Order.le_pred_of_lt above⟩ := by
      refine ⟨stands.low, IPV6.pred_isIPv4 removedStands.low, stands.first, ?_⟩
      exact (IPV6.pred_number removedStands.low (low ▸ above)).trans (congrArg Nat.pred low)
    have after (below : gone.last < interval.last) : Stands ⟨removed.toIp.succ, range.toIp⟩
          ⟨Order.succ gone.last, interval.last, Order.succ_le_of_lt below⟩ := by
      refine ⟨IPV6.succ_isIPv4 removedStands.high, stands.high, ?_, stands.last⟩
      exact (IPV6.succ_number removedStands.high (high ▸ below) (stands.last ▸ highWord)).trans
        (congrArg Nat.succ high)
    rw [Span.leftPiece, Span.rightPiece]
    by_cases covers : gone.first ≤ interval.first
    · rw [dif_neg (not_lt.mpr covers)]
      by_cases reaches : interval.last ≤ gone.last
      · rw [if_pos ⟨covers, reaches⟩, dif_neg (not_lt.mpr reaches)]
        exact .nil
      · rw [if_neg (mt And.right reaches), if_pos covers, dif_pos (not_le.mp reaches)]
        exact .cons (after (not_le.mp reaches)) .nil
    · rw [if_neg (mt And.left covers), if_neg covers, dif_pos (not_le.mp covers)]
      by_cases reaches : interval.last ≤ gone.last
      · rw [if_pos reaches, dif_neg (not_lt.mpr reaches)]
        exact .cons (before (not_le.mp covers)) .nil
      · rw [if_neg reaches, dif_pos (not_le.mp reaches)]
        exact .cons (before (not_le.mp covers)) (.cons (after (not_le.mp reaches)) .nil)

theorem removeRange_represents {removed : Range} {gone : Span Nat} {ranges : List Range}
    {held : IntervalSet Nat} (stands : Stands removed gone)
    (represents : Represents ranges held.intervals) :
    Represents (removeRange ranges removed) (held.erase gone).intervals := by
  obtain ⟨intervals, ascending⟩ := held
  change Represents ranges intervals at represents
  change Represents (ranges.flatMap _) (intervals.flatMap _)
  clear ascending
  induction represents with
  | nil => exact .nil
  | cons existStands _ ih =>
    exact List.rel_append (handleRemoveIntersection_represents stands existStands) ih

theorem mem_covered {ranges : List Range} {held : IntervalSet Nat}
    (represents : Represents ranges held.intervals) (ip : IPV6) :
    ip ∈ covered ranges ↔ ip.IsIPv4 ∧ ip.a.toNat ∈ held.points := by
  obtain ⟨intervals, ascending⟩ := held
  change Represents ranges intervals at represents
  change (∃ range ∈ ranges, ip ∈ range.addresses) ↔
    ip.IsIPv4 ∧ ∃ interval ∈ intervals, ip.a.toNat ∈ interval.points
  clear ascending
  induction represents with
  | nil => simp
  | cons stands _ ih =>
    simp only [List.exists_mem_cons_iff, ih, stands.mem_addresses, ← and_or_left]

theorem exists_stands {ranges : List Range} {intervals : List (Span Nat)}
    (represents : Represents ranges intervals) {range : Range} (member : range ∈ ranges) :
    ∃ interval ∈ intervals, Stands range interval := by
  induction represents with
  | nil => cases member
  | @cons first interval ranges intervals stands _ ih =>
    rcases List.mem_cons.mp member with rfl | later
    · exact ⟨interval, List.mem_cons_self, stands⟩
    · obtain ⟨found, held, stands⟩ := ih later
      exact ⟨found, List.mem_cons_of_mem _ held, stands⟩

theorem wellFormed_of_represents {ranges : List Range} {held : IntervalSet Nat}
    (represents : Represents ranges held.intervals) : WellFormed ranges := by
  obtain ⟨intervals, ascending⟩ := held
  change Represents ranges intervals at represents
  have upwards {range : Range} {interval : Span Nat} (stands : Stands range interval) :
      range.fromIp ≤ range.toIp := by
    rw [IPV6.le_iff stands.low stands.high, stands.first, stands.last]
    exact interval.ordered
  induction represents with
  | nil => exact ⟨.nil, .nil, by simp⟩
  | @cons range interval ranges intervals stands represents ih =>
    obtain ⟨apart, sorted⟩ := List.pairwise_cons.mp ascending
    have rest := ih sorted
    have disjoint : ∀ later ∈ ranges, range.toIp < later.fromIp := by
      intro later member
      obtain ⟨found, held, laterStands⟩ := exists_stands represents member
      exact (stands.before_iff laterStands).mpr (apart found held)
    have start : ∀ later ∈ ranges, range.fromIp < later.fromIp := by
      intro later member
      obtain ⟨found, held, laterStands⟩ := exists_stands represents member
      rw [IPV6.lt_iff stands.low laterStands.low, stands.first, laterStands.first]
      exact interval.ordered.trans_lt (apart found held)
    exact ⟨.cons start rest.sorted, .cons disjoint rest.disjoint,
      List.forall_mem_cons.mpr ⟨upwards stands, rest.upwards⟩⟩

/-- A call on IPv4 addresses, and what it does to the represented set. -/
theorem Call.perform_represents {libc : Libc} {call : Call} {ranges next : List Range}
    {held : IntervalSet Nat} (ipv4 : call.IsIPv4 libc) (represents : Represents ranges held.intervals)
    (performed : call.perform libc ranges = some next) :
    ∃ after : IntervalSet Nat, Represents next after.intervals ∧
      ∀ ip, (ip.IsIPv4 ∧ ip.a.toNat ∈ after.points) ↔
        ip ∈ call.meaning libc {ip | ip.IsIPv4 ∧ ip.a.toNat ∈ held.points} := by
  cases call with
  | addText text =>
    obtain ⟨range, parsed, rfl⟩ := Option.map_eq_some_iff.mp performed
    obtain ⟨low, high⟩ := ipv4 range parsed
    obtain ⟨interval, stands⟩ :=
      Stands.exists_interval low high (parseRange_upwards parsed low high)
    refine ⟨held.add interval, addRange_represents stands represents, fun ip => ?_⟩
    simp [Call.meaning, Call.range, parsed, stands.mem_addresses, and_or_left]
  | addRange range =>
    obtain rfl := Option.some.inj performed
    obtain ⟨low, high, upwards⟩ := ipv4
    obtain ⟨interval, stands⟩ := Stands.exists_interval low high upwards
    refine ⟨held.add interval, addRange_represents stands represents, fun ip => ?_⟩
    simp [Call.meaning, Call.range, stands.mem_addresses, and_or_left]
  | removeText text =>
    obtain ⟨range, parsed, rfl⟩ := Option.map_eq_some_iff.mp performed
    obtain ⟨low, high⟩ := ipv4 range parsed
    obtain ⟨interval, stands⟩ :=
      Stands.exists_interval low high (parseRange_upwards parsed low high)
    refine ⟨held.erase interval, removeRange_represents stands represents, fun ip => ?_⟩
    simp only [Call.meaning, Call.range, parsed, IntervalSet.points_erase, Set.mem_sdiff,
      Set.mem_ofPred_eq, stands.mem_addresses]
    tauto

theorem Call.performAll_represents {libc : Libc} {calls : List Call} {ranges next : List Range}
    {held : IntervalSet Nat} (ipv4 : ∀ call ∈ calls, call.IsIPv4 libc)
    (represents : Represents ranges held.intervals)
    (performed : Call.performAll libc ranges calls = some next) :
    WellFormed next ∧ covered next = calls.foldl (Call.meaning libc) (covered ranges) := by
  induction calls generalizing ranges held with
  | nil =>
    obtain rfl := Option.some.inj performed
    exact ⟨wellFormed_of_represents represents, rfl⟩
  | cons call calls ih =>
    obtain ⟨middle, first, rest⟩ := Option.bind_eq_some_iff.mp performed
    obtain ⟨here, later⟩ := List.forall_mem_cons.mp ipv4
    obtain ⟨after, kept, meaning⟩ := Call.perform_represents here represents first
    have before : covered ranges = {ip | ip.IsIPv4 ∧ ip.a.toNat ∈ held.points} :=
      Set.ext (mem_covered represents)
    have step : covered middle = call.meaning libc (covered ranges) := by
      rw [before]
      exact Set.ext fun ip => (mem_covered kept ip).trans (meaning ip)
    rw [List.foldl_cons, ← step]
    exact ih later kept rest

/-- Whatever successful calls are made on an object, its ranges stay sorted and disjoint, and they
hold the addresses that the unions and differences give. -/
theorem performAll_covers (libc : Libc) (calls : List Call) (ranges : List Range)
    (ipv4 : ∀ call ∈ calls, call.IsIPv4 libc)
    (performed : Call.performAll libc [] calls = some ranges) :
    WellFormed ranges ∧ covered ranges = calls.foldl (Call.meaning libc) ∅ := by
  have nothing : covered [] = ∅ := by
    ext ip
    simp [covered]
  rw [← nothing]
  exact @Call.performAll_represents libc calls [] ranges IntervalSet.empty ipv4 .nil performed

/-- A library that knows the address `1.2.3.6`. -/
def sampleLibc : Libc where
  inetPton6 _ := none
  inetPton4 text := if text = [49, 46, 50, 46, 51, 46, 54] then some ![1, 2, 3, 6] else none
  atoi _ := 0

def sampleIp (a : UInt32) : IPV6 := ⟨a, 0x0000FFFF, 0, 0⟩

def sampleCalls : List Call :=
  [.addRange ⟨sampleIp 0x01020304, sampleIp 0x01020308⟩, .removeText [49, 46, 50, 46, 51, 46, 54]]

def sampleRanges : List Range :=
  [⟨sampleIp 0x01020304, sampleIp 0x01020305⟩, ⟨sampleIp 0x01020307, sampleIp 0x01020308⟩]

theorem performAll_covers_sample : WellFormed sampleRanges ∧
    covered sampleRanges = sampleCalls.foldl (Call.meaning sampleLibc) ∅ := by
  apply performAll_covers sampleLibc sampleCalls sampleRanges
  · refine List.forall_mem_cons.mpr ⟨?_, List.forall_mem_singleton.mpr ?_⟩
    · exact ⟨⟨rfl, rfl, rfl⟩, ⟨rfl, rfl, rfl⟩, by decide⟩
    · intro range parsed
      have same : range = ⟨sampleIp 0x01020306, sampleIp 0x01020306⟩ :=
        Option.some.inj (Eq.symm parsed)
      subst same
      exact ⟨⟨rfl, rfl, rfl⟩, ⟨rfl, rfl, rfl⟩⟩
  · decide

end OpenGauss.IPRange
