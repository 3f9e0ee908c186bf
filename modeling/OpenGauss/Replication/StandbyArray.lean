import OpenGauss.Replication.SyncStandbys

/-! How `SyncRepGetSyncStandbys` fills its array of `max_wal_senders` entries: every wal sender is
copied behind the standbys found so far before it is decided whether to keep it. -/

namespace OpenGauss.Replication

/-- The array with the entries written so far, and how many standbys the current scan has kept. -/
structure StandbyArray where
  entries : Nat → SyncRepStandbyData
  written : List Nat
  numSync : Nat

namespace StandbyArray

def stored (array : StandbyArray) (count : Nat) : List SyncRepStandbyData :=
  (List.range count).map array.entries

def store (array : StandbyArray) (index : Nat) (stby : SyncRepStandbyData) : StandbyArray :=
  { array with
    entries := Function.update array.entries index stby
    written := index :: array.written }

/-- `qsort` of the entries from `base` on that the scan has kept. -/
def sort (array : StandbyArray) (base : Nat) : StandbyArray :=
  let kept := (array.stored (base + array.numSync)).drop base
  let sorted := kept.insertionSort Snapshot.standbyPriorityLe
  { array with
    entries := fun index => if index < base then array.entries index
      else sorted.getD (index - base) (array.entries index)
    written := List.range' base array.numSync ++ array.written }

variable (snapshot : Snapshot)

variable (group : SyncRepConfigData × Nat)

/-- One wal sender of a scan. An entry that is not kept has no index of its own. -/
def scanWalSnd (base : Nat)
    (array : StandbyArray) (entry : WalSnd × Nat) : StandbyArray :=
  let index := base + array.numSync
  let stby := snapshot.standbyData entry
  let old := array.entries index
  let copied := array.store index { stby with walsndIndex := old.walsndIndex, isMe := old.isMe }
  if Snapshot.isCandidate group.1 group.2 entry.1 then
    { copied.store index stby with numSync := array.numSync + 1 }
  else copied

def syncRepGetSyncStandbysInGroup (array : StandbyArray)
    (group : SyncRepConfigData × Nat) : StandbyArray :=
  let base := array.numSync
  let scanned := snapshot.walsnds.zipIdx.foldl (scanWalSnd snapshot group base)
    { array with numSync := 0 }
  let reported :=
    if group.1.syncrepMethod = .priority ∧ group.1.numSync < scanned.numSync then
      { scanned.sort base with numSync := group.1.numSync }
    else scanned
  { reported with numSync := base + reported.numSync }

/-- `memory` is what the allocation of the array found. -/
def syncRepGetSyncStandbys (memory : Nat → SyncRepStandbyData) : StandbyArray :=
  snapshot.groups.zipIdx.foldl (syncRepGetSyncStandbysInGroup snapshot) ⟨memory, [], 0⟩

def WrittenBelow (array : StandbyArray) (bound : Nat) : Prop :=
  ∀ index ∈ array.written, index < bound

variable (array : StandbyArray) (index : Nat) (stby : SyncRepStandbyData)

theorem stored_length (count : Nat) : (array.stored count).length = count := by
  simp [stored]

theorem stored_store :
    (array.store index stby).stored index = array.stored index := by
  apply List.map_congr_left
  intro below member
  exact Function.update_of_ne (List.mem_range.mp member).ne _ _

theorem stored_succ :
    (array.store index stby).stored (index + 1) = array.stored index ++ [stby] := by
  rw [← stored_store array index stby]
  simp [stored, List.range_succ, store]

theorem stored_prefix {lower upper : Nat} (le : lower ≤ upper) :
    (array.stored upper).take lower = array.stored lower := by
  simp [stored, ← List.map_take, List.take_range, Nat.min_eq_left le]

/-- Sorting rearranges what lies behind `base` and nothing else. -/
theorem stored_sort (base : Nat) {old kept : List SyncRepStandbyData} (length : old.length = base)
    (all : array.stored (base + array.numSync) = old ++ kept) :
    (array.sort base).stored (base + array.numSync) =
      old ++ kept.insertionSort Snapshot.standbyPriorityLe := by
  have front : array.stored base = old := by
    rw [← stored_prefix array (Nat.le_add_right base array.numSync), all, ← length, List.take_left]
  have tail : (array.stored (base + array.numSync)).drop base = kept := by
    rw [all, ← length, List.drop_left]
  have number : kept.length = array.numSync := by
    rw [← tail, List.length_drop, stored_length]
    omega
  rw [stored, List.range_add, List.map_append, List.map_map]
  congr 1
  · rw [← front]
    apply List.map_congr_left
    intro index member
    simp only [sort, List.mem_range.mp member, if_true]
  · apply List.ext_getElem
    · simp [number]
    · intro index here there
      have high : ¬ base + index < base := by omega
      simp only [List.getElem_map, List.getElem_range, Function.comp_apply, sort, tail, high,
        if_false, Nat.add_sub_cancel_left, List.getD_eq_getElem?_getD,
        List.getElem?_eq_getElem there, Option.getD_some]

section Scan

variable (snapshot : Snapshot) (group : SyncRepConfigData × Nat) (base : Nat)

/-- The standbys a scan of some wal senders keeps. -/
def found (entries : List (WalSnd × Nat)) : List SyncRepStandbyData :=
  (entries.filter fun entry => Snapshot.isCandidate group.1 group.2 entry.1).map
    snapshot.standbyData

theorem scan_stored (array : StandbyArray) (entries : List (WalSnd × Nat)) :
    let scanned := entries.foldl (scanWalSnd snapshot group base) array
    scanned.numSync = array.numSync + (found snapshot group entries).length ∧
      scanned.stored (base + scanned.numSync) =
        array.stored (base + array.numSync) ++ found snapshot group entries := by
  induction entries generalizing array with
  | nil => simp [found]
  | cons entry rest ih =>
    obtain ⟨count, contents⟩ := ih (scanWalSnd snapshot group base array entry)
    rw [List.foldl_cons]
    dsimp only
    rw [contents, count]
    by_cases candidate : Snapshot.isCandidate group.1 group.2 entry.1 = true
    · simp only [scanWalSnd, candidate, if_true, found, List.filter_cons, List.map_cons, List.length_cons]
      refine ⟨by omega, ?_⟩
      rw [← Nat.add_assoc]
      change ((array.store _ _).store _ _).stored (base + array.numSync + 1) ++ _ = _
      rw [stored_succ, stored_store, List.append_assoc, List.singleton_append]
    · simp only [scanWalSnd, candidate, if_false, found, List.filter_cons, Bool.false_eq_true]
      refine ⟨rfl, ?_⟩
      change (array.store _ _).stored (base + array.numSync) ++ _ = _
      rw [stored_store]

/-- The last wal sender goes into the entry behind those the scan has kept before it. -/
theorem scan_written (bound : Nat) (array : StandbyArray) (entries : List (WalSnd × Nat)) :
    (entries.foldl (scanWalSnd snapshot group base) array).WrittenBelow bound ↔
      array.WrittenBelow bound ∧ (entries ≠ [] →
        base + array.numSync + (found snapshot group entries.dropLast).length < bound) := by
  induction entries generalizing array with
  | nil => simp
  | cons entry rest ih =>
    have step : (scanWalSnd snapshot group base array entry).WrittenBelow bound ↔
        base + array.numSync < bound ∧ array.WrittenBelow bound := by
      by_cases candidate : Snapshot.isCandidate group.1 group.2 entry.1 = true <;>
        simp [scanWalSnd, candidate, store, WrittenBelow]
    rw [List.foldl_cons, ih, step]
    rcases rest.eq_nil_or_concat with rfl | ⟨front, last, rfl⟩
    · simp [found, and_comm]
    · rw [List.concat_eq_append, ← List.cons_append, List.dropLast_concat, List.dropLast_concat]
      by_cases candidate : Snapshot.isCandidate group.1 group.2 entry.1 = true
      · simp only [scanWalSnd, candidate, if_true, found, List.filter_cons, List.map_cons, List.length_cons]
        simp only [ne_eq, List.append_eq_nil_iff, reduceCtorEq, and_false, not_false_eq_true, forall_const]
        constructor
        · rintro ⟨⟨_, old⟩, below⟩
          exact ⟨old, by omega⟩
        · rintro ⟨old, below⟩
          exact ⟨⟨by omega, old⟩, by omega⟩
      · simp only [scanWalSnd, candidate, found, store, List.filter_cons]
        simp
        intro below _
        omega

end Scan

section Group

variable (snapshot : Snapshot) (group : SyncRepConfigData × Nat)

theorem found_walsnds :
    found snapshot group snapshot.walsnds.zipIdx = snapshot.eligible group.1 group.2 := rfl

theorem found_length (entries : List (WalSnd × Nat)) : (found snapshot group entries).length =
      (entries.map Prod.fst).countP (Snapshot.isCandidate group.1 group.2) := by
  rw [found, List.length_map, List.countP_map, List.countP_eq_length_filter]
  rfl

theorem eligible_length : (snapshot.eligible group.1 group.2).length =
      snapshot.walsnds.countP (Snapshot.isCandidate group.1 group.2) := by
  rw [← found_walsnds, found_length, List.zipIdx_map_fst]

def members : List SyncRepStandbyData :=
  snapshot.syncRepGetSyncStandbysInGroup group.1 group.2 none

theorem members_eq : members snapshot group = if group.1.syncrepMethod = .priority ∧
          group.1.numSync < (snapshot.eligible group.1 group.2).length then
        ((snapshot.eligible group.1 group.2).insertionSort Snapshot.standbyPriorityLe).take group.1.numSync
      else snapshot.eligible group.1 group.2 := by
  simp [members, Snapshot.syncRepGetSyncStandbysInGroup]

theorem group_stored (array : StandbyArray) :
    let next := syncRepGetSyncStandbysInGroup snapshot array group
    next.numSync = array.numSync + (members snapshot group).length ∧
      next.stored next.numSync = array.stored array.numSync ++ members snapshot group := by
  obtain ⟨count, contents⟩ := scan_stored snapshot group array.numSync
    { array with numSync := 0 } snapshot.walsnds.zipIdx
  rw [found_walsnds] at count contents
  simp only [Nat.zero_add] at count
  rw [members_eq]
  by_cases truncated : group.1.syncrepMethod = .priority ∧
      group.1.numSync < (snapshot.eligible group.1 group.2).length
  · simp only [syncRepGetSyncStandbysInGroup, count, truncated, true_and, if_true]
    have few : group.1.numSync ≤ (snapshot.eligible group.1 group.2).length := truncated.2.le
    refine ⟨by simp [few], ?_⟩
    have sorted := stored_sort _ array.numSync (stored_length array array.numSync) contents
    change (sort _ _).stored (array.numSync + group.1.numSync) = _
    have cut : array.numSync + group.1.numSync ≤
        array.numSync + (snapshot.eligible group.1 group.2).length := by omega
    rw [← stored_prefix _ cut, ← count, sorted, List.take_append, stored_length]
    simp [stored_length, List.take_of_length_le]
  · simp only [syncRepGetSyncStandbysInGroup, count, truncated, if_false]
    refine ⟨trivial, ?_⟩
    rw [count] at contents
    exact contents

theorem countP_dropLast (walsnds : List WalSnd) (keep : WalSnd → Bool) :
    walsnds.countP keep ≤ walsnds.dropLast.countP keep + 1 := by
  rcases walsnds.eq_nil_or_concat with rfl | ⟨front, last, rfl⟩
  · simp
  · rw [List.concat_eq_append, List.dropLast_concat, List.countP_append]
    have := List.countP_le_length (p := keep) (l := [last])
    simp only [List.length_singleton] at this
    omega

theorem group_written (bound : Nat) (array : StandbyArray) :
    (syncRepGetSyncStandbysInGroup snapshot array group).WrittenBelow bound ↔
      array.WrittenBelow bound ∧ (snapshot.walsnds ≠ [] → array.numSync +
        snapshot.walsnds.dropLast.countP (Snapshot.isCandidate group.1 group.2) < bound) := by
  have count := (scan_stored snapshot group array.numSync { array with numSync := 0 }
    snapshot.walsnds.zipIdx).1
  have scanned := scan_written snapshot group array.numSync bound { array with numSync := 0 }
    snapshot.walsnds.zipIdx
  rw [found_length, List.map_dropLast, List.zipIdx_map_fst, ne_eq, List.zipIdx_eq_nil_iff] at scanned
  rw [found_walsnds, eligible_length] at count
  change _ ↔ { array with numSync := 0 }.WrittenBelow bound ∧ _
  refine Iff.trans ?_ scanned
  by_cases truncated : group.1.syncrepMethod = .priority ∧ group.1.numSync <
      snapshot.walsnds.countP (Snapshot.isCandidate group.1 group.2)
  · simp only [syncRepGetSyncStandbysInGroup, count, Nat.zero_add, truncated, true_and, if_true]
    constructor
    · intro below index member
      exact below index (List.mem_append_right _ member)
    · intro below index member
      rcases List.mem_append.mp member with moved | copied
      · -- What is sorted is what the scan has kept, all of it behind entries it has written.
        rw [count, List.mem_range'_1] at moved
        have room := (scanned.mp below).2
        have last := countP_dropLast snapshot.walsnds (Snapshot.isCandidate group.1 group.2)
        by_cases empty : snapshot.walsnds = []
        · simp [empty] at moved
          omega
        · have := room empty
          simp only at moved this
          omega
      · exact below index copied
  · simp only [syncRepGetSyncStandbysInGroup, count, Nat.zero_add, truncated, if_false]
    exact Iff.rfl

end Group

section Groups

variable (snapshot : Snapshot)

theorem groups_stored (groups : List (SyncRepConfigData × Nat)) (array : StandbyArray) :
    let filled := groups.foldl (syncRepGetSyncStandbysInGroup snapshot) array
    filled.numSync = array.numSync + (groups.flatMap (members snapshot)).length ∧
      filled.stored filled.numSync = array.stored array.numSync ++ groups.flatMap (members snapshot) := by
  induction groups generalizing array with
  | nil => simp
  | cons group rest ih =>
    obtain ⟨count, contents⟩ := group_stored snapshot group array
    obtain ⟨total, all⟩ := ih (syncRepGetSyncStandbysInGroup snapshot array group)
    simp only [List.foldl_cons, List.flatMap_cons, List.length_append]
    refine ⟨by omega, ?_⟩
    rw [all, contents, List.append_assoc]

theorem groups_written (bound : Nat) (groups : List (SyncRepConfigData × Nat)) (array : StandbyArray) :
    (groups.foldl (syncRepGetSyncStandbysInGroup snapshot) array).WrittenBelow bound ↔
      array.WrittenBelow bound ∧ ∀ before group after, groups = before ++ group :: after →
        snapshot.walsnds ≠ [] →
        array.numSync + (before.flatMap (members snapshot)).length +
          snapshot.walsnds.dropLast.countP (Snapshot.isCandidate group.1 group.2) < bound := by
  induction groups generalizing array with
  | nil => simp
  | cons group rest ih =>
    rw [List.foldl_cons, ih, group_written, (group_stored snapshot group array).1, and_assoc]
    refine and_congr_right fun _ => ⟨?_, ?_⟩
    · rintro ⟨first, later⟩ before other after split present
      cases before with
      | nil =>
        obtain ⟨rfl, rfl⟩ := List.cons.inj split
        simpa using first present
      | cons head front =>
        obtain ⟨rfl, tail⟩ := List.cons.inj split
        simpa [Nat.add_assoc] using later front other after tail present
    · intro every
      refine ⟨fun present => by simpa using every [] group rest rfl present, ?_⟩
      intro before other after split present
      simpa [Nat.add_assoc] using
        every (group :: before) other after (by rw [split, List.cons_append]) present

/-- The wal sender counts for one of the groups. -/
def counts (groups : List (SyncRepConfigData × Nat)) (walsnd : WalSnd) : Bool :=
  groups.any fun group => Snapshot.isCandidate group.1 group.2 walsnd

theorem isCandidate_group {group : SyncRepConfigData × Nat} {walsnd : WalSnd}
    (candidate : Snapshot.isCandidate group.1 group.2 walsnd = true) :
    walsnd.syncStandbyGroup = group.2 := by
  simp only [Snapshot.isCandidate, Bool.and_eq_true, beq_iff_eq] at candidate
  exact candidate.1.1.1.2

/-- A wal sender counts for one group at most. -/
theorem countP_counts (walsnds : List WalSnd) (groups : List (SyncRepConfigData × Nat))
    (distinct : (groups.map Prod.snd).Nodup) :
    walsnds.countP (counts groups) =
      (groups.map fun group => walsnds.countP (Snapshot.isCandidate group.1 group.2)).sum := by
  induction groups with
  | nil => simp [counts]
  | cons group rest ih =>
    obtain ⟨fresh, others⟩ := List.nodup_cons.mp distinct
    rw [List.map_cons, List.sum_cons, ← ih others]
    clear ih
    induction walsnds with
    | nil => rfl
    | cons walsnd more ih =>
      have single : ¬ (Snapshot.isCandidate group.1 group.2 walsnd = true ∧ counts rest walsnd = true) := by
        rintro ⟨here, there⟩
        obtain ⟨other, member, candidate⟩ := List.any_eq_true.mp there
        apply fresh
        rw [← isCandidate_group here, isCandidate_group candidate]
        exact List.mem_map_of_mem member
      have either : counts (group :: rest) walsnd =
          (Snapshot.isCandidate group.1 group.2 walsnd || counts rest walsnd) := rfl
      simp only [List.countP_cons, ih, either, Bool.or_eq_true]
      split <;> split <;> split <;> simp_all <;> omega

/-- No group reports fewer standbys than count for it. -/
def Whole (groups : List (SyncRepConfigData × Nat)) : Prop :=
  ∀ group ∈ groups, group.1.syncrepMethod = .priority →
    (snapshot.eligible group.1 group.2).length ≤ group.1.numSync

theorem members_length (group : SyncRepConfigData × Nat) : (members snapshot group).length ≤
        snapshot.walsnds.countP (Snapshot.isCandidate group.1 group.2) ∧
      ((members snapshot group).length = snapshot.walsnds.countP (Snapshot.isCandidate group.1 group.2) ↔
        (group.1.syncrepMethod = .priority →
          (snapshot.eligible group.1 group.2).length ≤ group.1.numSync)) := by
  rw [members_eq, ← eligible_length]
  split
  · rename_i truncated
    simp [truncated.1]
  · rename_i whole
    simpa using whole

theorem flatMap_members_length (groups : List (SyncRepConfigData × Nat))
    (distinct : (groups.map Prod.snd).Nodup) :
    (groups.flatMap (members snapshot)).length ≤ snapshot.walsnds.countP (counts groups) ∧
      ((groups.flatMap (members snapshot)).length = snapshot.walsnds.countP (counts groups) ↔
        Whole snapshot groups) := by
  rw [countP_counts _ groups distinct]
  clear distinct
  induction groups with
  | nil => simp [Whole]
  | cons group rest ih =>
    obtain ⟨le, eq⟩ := members_length snapshot group
    simp only [List.flatMap_cons, List.length_append, List.map_cons, List.sum_cons, Whole,
      List.forall_mem_cons] at ih ⊢
    rw [← eq, ← ih.2]
    omega

end Groups

/-- The scan of `group` goes on behind a full array: every wal sender counts for this group or one
before it, the last one for one before it, and none of those before it is cut short. -/
structure Overruns (snapshot : Snapshot) (before : List (SyncRepConfigData × Nat))
    (group : SyncRepConfigData × Nat) : Prop where
  every : ∀ walsnd ∈ snapshot.walsnds, counts (before ++ [group]) walsnd = true
  last : ∃ walsnd, snapshot.walsnds.getLast? = some walsnd ∧ counts before walsnd = true
  whole : Whole snapshot before

theorem overruns_iff (before : List (SyncRepConfigData × Nat))
    (group : SyncRepConfigData × Nat) (distinct : ((before ++ [group]).map Prod.snd).Nodup) :
    ¬ (snapshot.walsnds ≠ [] → (before.flatMap (members snapshot)).length +
        snapshot.walsnds.dropLast.countP (Snapshot.isCandidate group.1 group.2) < snapshot.walsnds.length) ↔
      Overruns snapshot before group := by
  obtain ⟨apart, -⟩ := List.nodup_append.mp (List.map_append ▸ distinct)
  obtain ⟨le, eq⟩ := flatMap_members_length snapshot before apart
  rcases snapshot.walsnds.eq_nil_or_concat with absent | ⟨front, last, split⟩
  · simp only [absent, ne_eq, not_true_eq_false, false_implies, not_true_eq_false, false_iff]
    intro overruns
    obtain ⟨walsnd, found, -⟩ := overruns.last
    simp [absent] at found
  · have both := countP_counts front (before ++ [group]) distinct
    rw [List.map_append, List.sum_append, ← countP_counts front before apart] at both
    simp only [List.map_cons, List.map_nil, List.sum_singleton] at both
    have most := List.countP_le_length (p := counts (before ++ [group])) (l := front)
    have all := List.countP_eq_length (p := counts (before ++ [group])) (l := front)
    have one : [last].countP (counts before) = 1 ↔ counts before last = true := by simp
    have small := List.countP_le_length (p := counts before) (l := [last])
    have here : counts before last = true → counts (before ++ [group]) last = true := by
      intro earlier
      simpa [counts, List.any_append] using Or.inl (by simpa [counts] using earlier)
    rw [List.concat_eq_append] at split
    rw [split, List.countP_append] at le eq
    have overruns : Overruns snapshot before group ↔
        front.countP (counts (before ++ [group])) = front.length ∧
          [last].countP (counts before) = 1 ∧ Whole snapshot before := by
      rw [all, one]
      constructor
      · rintro ⟨every, ⟨walsnd, found, counted⟩, whole⟩
        rw [split, List.getLast?_concat] at found
        obtain rfl := Option.some.inj found
        exact ⟨fun other member => every other (by simp [split, member]), counted, whole⟩
      · rintro ⟨every, counted, whole⟩
        refine ⟨?_, ⟨last, by rw [split, List.getLast?_concat], counted⟩, whole⟩
        intro walsnd member
        rw [split] at member
        rcases List.mem_append.mp member with earlier | final
        · exact every walsnd earlier
        · rw [List.mem_singleton.mp final]
          exact here counted
    rw [overruns, ← eq, split, List.dropLast_concat, List.length_append]
    simp only [List.length_singleton] at small ⊢
    simp only [ne_eq, List.append_eq_nil_iff, List.cons_ne_nil, and_false, not_false_eq_true, true_implies]
    omega

/-- What each group contributes: its eligible standbys, or of a priority group that has too many
those with the smallest priority and index. -/
def Contributes (standbys : List SyncRepStandbyData) : Prop :=
  if group.1.syncrepMethod = .priority ∧
      group.1.numSync < (snapshot.eligible group.1 group.2).length then
    standbys.length = group.1.numSync ∧
      ∃ others, (standbys ++ others).Perm (snapshot.eligible group.1 group.2) ∧
        ∀ stby ∈ standbys, ∀ other ∈ others, Snapshot.standbyPriorityLe stby other
  else standbys.Perm (snapshot.eligible group.1 group.2)

structure Reports (snapshot : Snapshot) (standbys : List SyncRepStandbyData) : Prop where
  groups : ∀ group ∈ snapshot.groups.zipIdx, Contributes snapshot group (Snapshot.inGroup standbys group.2)
  others : ∀ stby ∈ standbys, ∃ group ∈ snapshot.groups.zipIdx, stby.syncStandbyGroup = group.2
  distinct : (standbys.map (·.walsndIndex)).Nodup

theorem members_contributes :
    Contributes snapshot group (members snapshot group) := by
  rw [members_eq, Contributes]
  split
  · rename_i truncated
    have total : Std.Total Snapshot.standbyPriorityLe := by
      constructor
      intro first second
      unfold Snapshot.standbyPriorityLe
      omega
    have trans : IsTrans _ Snapshot.standbyPriorityLe := by
      constructor
      intro first second third
      unfold Snapshot.standbyPriorityLe
      omega
    have sorted := List.pairwise_insertionSort Snapshot.standbyPriorityLe (snapshot.eligible group.1 group.2)
    rw [← List.take_append_drop group.1.numSync (List.insertionSort _ _)] at sorted
    refine ⟨by simp [truncated.2.le], _, ?_, (List.pairwise_append.mp sorted).2.2⟩
    rw [List.take_append_drop]
    exact List.perm_insertionSort _ _
  · exact List.Perm.refl _

theorem members_index {snapshot : Snapshot} {group : SyncRepConfigData × Nat}
    {stby : SyncRepStandbyData} (member : stby ∈ members snapshot group) :
    ∃ walsnd, snapshot.walsnds[stby.walsndIndex]? = some walsnd ∧ walsnd.syncStandbyGroup = group.2 := by
  have subset := (Snapshot.inGroup_subperm group.1 group.2 none).subset member
  obtain ⟨entry, found, rfl⟩ := List.mem_map.mp (List.mem_filter.mp subset).1
  obtain ⟨present, candidate⟩ := List.mem_filter.mp found
  exact ⟨entry.1, List.mem_zipIdx_iff_getElem?.mp present, isCandidate_group candidate⟩

theorem members_distinct :
    ((members snapshot group).map (·.walsndIndex)).Nodup := by
  obtain ⟨same, perm, sublist⟩ := @Snapshot.inGroup_subperm snapshot group.1 group.2 none
  apply (perm.map _).nodup_iff.mp
  apply List.Nodup.sublist ((sublist.trans List.filter_sublist).map _)
  rw [Snapshot.eligible, List.map_map]
  apply List.Nodup.sublist (List.filter_sublist.map _)
  change (snapshot.walsnds.zipIdx.map Prod.snd).Nodup
  rw [List.zipIdx_map_snd]
  exact List.nodup_range'

theorem syncRepGetSyncStandbys_reports :
    Reports snapshot snapshot.syncRepGetSyncStandbys where
  groups := by
    intro group member
    rw [Snapshot.inGroup_syncRepGetSyncStandbys member]
    exact members_contributes snapshot group
  others := by
    intro stby member
    obtain ⟨group, configured, found⟩ := List.mem_flatMap.mp member
    refine ⟨group, configured, ?_⟩
    exact Snapshot.mem_eligible_group
      (List.mem_filter.mp ((Snapshot.inGroup_subperm group.1 group.2 none).subset found)).1
  distinct := by
    have numbers : (snapshot.groups.zipIdx.map Prod.snd).Nodup := by
      rw [List.zipIdx_map_snd]
      exact List.nodup_range'
    rw [Snapshot.syncRepGetSyncStandbys, List.map_flatMap, List.nodup_flatMap]
    refine ⟨fun group _ => members_distinct snapshot group, ?_⟩
    refine (List.pairwise_map.mp numbers).imp ?_
    intro first second different index one two
    obtain ⟨stby, member, rfl⟩ := List.mem_map.mp one
    obtain ⟨other, found, same⟩ := List.mem_map.mp two
    obtain ⟨walsnd, present, group⟩ := members_index member
    obtain ⟨again, elsewhere, label⟩ := members_index found
    rw [same, present] at elsewhere
    obtain rfl := Option.some.inj elsewhere
    exact different (group.symm.trans label)

theorem syncRepGetSyncStandbys_array (snapshot : Snapshot) (memory : Nat → SyncRepStandbyData) :
    let array := syncRepGetSyncStandbys snapshot memory
    array.WrittenBelow snapshot.walsnds.length ∧ Reports snapshot (array.stored array.numSync) ↔
      ¬ ∃ before group after, snapshot.groups.zipIdx = before ++ group :: after ∧
        Overruns snapshot before group := by
  obtain ⟨-, contents⟩ := groups_stored snapshot snapshot.groups.zipIdx ⟨memory, [], 0⟩
  have reports : Reports snapshot ((syncRepGetSyncStandbys snapshot memory).stored
      (syncRepGetSyncStandbys snapshot memory).numSync) := by
    rw [syncRepGetSyncStandbys, contents]
    exact syncRepGetSyncStandbys_reports snapshot
  have numbers : (snapshot.groups.zipIdx.map Prod.snd).Nodup := by
    rw [List.zipIdx_map_snd]
    exact List.nodup_range'
  simp only [reports, and_true]
  rw [syncRepGetSyncStandbys, groups_written]
  have absent : StandbyArray.WrittenBelow ⟨memory, [], 0⟩ snapshot.walsnds.length := by
    intro index member
    simp at member
  simp only [absent, true_and, Nat.zero_add, not_exists, not_and]
  refine forall_congr' fun before => forall_congr' fun group => forall_congr' fun after =>
    forall_congr' fun split => ?_
  rw [← overruns_iff, not_not]
  rw [split, List.append_cons, List.map_append] at numbers
  exact (List.nodup_append.mp numbers).1

/-- Two wal senders that both count, the second one for the group that is scanned first. -/
def swappedGroups : Snapshot where
  walsnds := [1, 0].map fun groupid =>
    { pid := 4000 + groupid, position := fun _ => 96, lastChangeTime := fun _ => 0
      syncStandbyPriority := 1, syncStandbyGroup := groupid }
  config := some [⟨.quorum, 1⟩, ⟨.quorum, 1⟩]
  mostAvailableSync := false
  now := 0
  ignoreStandbyLsnWindow := 0
  keepSyncWindow := 0
  keepSyncWindowStart := 0
  outKeepSyncWindow := false
  xlogWriteRecPtr := 96
  flushRecPtr := 96

theorem not_writtenBelow_swappedGroups : ¬ ∀ (snapshot : Snapshot) (memory : Nat → SyncRepStandbyData),
      let array := syncRepGetSyncStandbys snapshot memory
      array.WrittenBelow snapshot.walsnds.length ∧ Reports snapshot (array.stored array.numSync) := by
  intro every
  let blank : SyncRepStandbyData := ⟨fun _ => 0, fun _ => false, 0, 0, false, 0, false⟩
  have written : (syncRepGetSyncStandbys swappedGroups fun _ => blank).written =
      [2, 1, 1, 0, 0, 0] := rfl
  have below := (every swappedGroups fun _ => blank).1
  exact absurd (below 2 (by simp [written])) (by decide)

end StandbyArray

end OpenGauss.Replication
