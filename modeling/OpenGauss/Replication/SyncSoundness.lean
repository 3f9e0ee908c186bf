import OpenGauss.Replication.SyncStandbys

namespace OpenGauss.Replication

namespace Snapshot

section Counting

variable {snapshot : Snapshot} {group : SyncRepConfigData × Nat} {mode : SyncRepWaitMode} {ptr : Nat}

/-- The group counts were accepted: either groups may be short or none is. -/
def Accepted (snapshot : Snapshot) : Prop :=
  snapshot.mostAvailableSync = true ∨ ∀ group ∈ snapshot.groups.zipIdx,
    group.1.numSync ≤ (snapshot.syncRepGetSyncStandbysInGroup group.1 group.2 none).length

theorem not_tooOld (all : snapshot.mostAvailableSync = false) {stby : SyncRepStandbyData}
    (member : stby ∈ snapshot.eligible group.1 group.2) (mode : SyncRepWaitMode) :
    stby.tooOld mode = false := by
  obtain ⟨entry, -, rfl⟩ := List.mem_map.mp member
  simp [standbyData, ifIgnoreStandbyLsn, all]

theorem required_le_members (accepted : snapshot.Accepted)
    (member : group ∈ snapshot.groups.zipIdx) (mode : SyncRepWaitMode) :
    snapshot.required mode group ≤ (snapshot.syncRepGetSyncStandbysInGroup group.1 group.2 none).length := by
  rcases accepted with lenient | strict
  · simp only [required, lenient, if_true]
    cases method : group.1.syncrepMethod with
    | priority =>
      rw [priority_length method]
      exact min_le_min_left _ (List.countP_mono_left (by simp))
    | quorum =>
      rw [quorum_members method]
      exact (Nat.min_le_right _ _).trans List.countP_le_length
  · apply le_trans ?_ (strict group member)
    unfold required
    split
    · exact Nat.min_le_left _ _
    · exact le_refl _

/-- Standbys of the group that are all at a position or beyond count towards it. -/
theorem Enough.of_members {members : List SyncRepStandbyData}
    (part : members.Subperm (snapshot.eligible group.1 group.2))
    (reached : ∀ stby ∈ members, ptr ≤ stby.position mode)
    (many : snapshot.required mode group ≤ members.length) : snapshot.Enough mode group ptr := by
  have all : members.countP (fun stby => ptr ≤ stby.position mode) = members.length :=
    List.countP_eq_length.mpr (by simpa using reached)
  exact many.trans (all.symm.le.trans (part.countP_le _))

theorem members_subperm (wait : Option SyncRepWaitMode) :
    (snapshot.syncRepGetSyncStandbysInGroup group.1 group.2 wait).Subperm
      (snapshot.eligible group.1 group.2) :=
  (inGroup_subperm group.1 group.2 wait).trans List.filter_sublist.subperm

section

variable (accepted : snapshot.Accepted) (member : group ∈ snapshot.groups.zipIdx)

include accepted member

theorem required_le_valid (quorum : group.1.syncrepMethod = .quorum) (mode : SyncRepWaitMode) :
    snapshot.required mode group ≤
      (snapshot.eligible group.1 group.2).countP fun stby => !stby.tooOld mode := by
  cases lenient : snapshot.mostAvailableSync with
  | true =>
    rw [required, if_pos lenient]
    exact Nat.min_le_right _ _
  | false =>
    have few := required_le_members accepted member mode
    rw [quorum_members quorum] at few
    have fresh : (snapshot.eligible group.1 group.2).countP (fun stby => !stby.tooOld mode) =
        (snapshot.eligible group.1 group.2).length :=
      List.countP_eq_length.mpr fun stby found => by rw [not_tooOld lenient found]; rfl
    exact few.trans_eq fresh.symm

omit accepted member in
/-- Up to an entry that is valid, the array holds positions of standbys that are not too old. -/
theorem lt_countP_latestFirst {index : Nat} (valid : (snapshot.latestFirst mode group).getD index 0 ≠ 0)
    (least : ptr ≤ (snapshot.latestFirst mode group).getD index 0) :
    index < (snapshot.eligible group.1 group.2).countP fun stby => ptr ≤ stby.position mode := by
  generalize entryIs : (snapshot.latestFirst mode group).getD index 0 = entry at valid least
  have found : (snapshot.latestFirst mode group)[index]? = some entry := by
    rw [List.getD_eq_getElem?_getD] at entryIs
    cases stored : (snapshot.latestFirst mode group)[index]? with
    | none => simp [stored] at entryIs; omega
    | some value => simpa [stored] using entryIs
  have descending : (snapshot.latestFirst mode group).Pairwise (· ≥ ·) :=
    List.pairwise_insertionSort _ _
  have many := Lib.lt_countP_of_descending descending found
  rw [latestFirst, (List.perm_insertionSort _ _).countP_eq, List.countP_map] at many
  refine many.trans_le (List.countP_mono_left fun stby _ above => ?_)
  -- a too old position stands as zero in the array and cannot be at the entry
  by_cases old : stby.tooOld mode
  · simp [reported, old, valid] at above
  · simp only [Function.comp_apply, reported, old, decide_eq_true_eq] at above ⊢
    exact least.trans above

theorem enough_of_le_quorum (quorum : group.1.syncrepMethod = .quorum)
    (count : snapshot.required mode group ≤ snapshot.narrowed group)
    (valid : 0 ∉ snapshot.decisive mode group)
    (least : ∀ entry ∈ snapshot.decisive mode group, ptr ≤ entry) :
    snapshot.Enough mode group ptr := by
  simp only [decisive, offered, quorum, offeredByQuorum] at valid least
  by_cases empty : snapshot.latestFirst mode group = []
  · have absent : snapshot.eligible group.1 group.2 = [] := by
      simpa [latestFirst] using congrArg List.length empty
    have few := required_le_members accepted member mode
    rw [quorum_members quorum, absent] at few
    exact few.trans (Nat.zero_le _)
  · rw [if_neg empty] at valid least
    by_cases invalid : (snapshot.latestFirst mode group).getD (snapshot.narrowed group - 1) 0 = 0
    · simp only [invalid, ne_eq, not_true_eq_false, if_false] at valid least
      split at valid
      · rename_i fresh
        rw [if_pos fresh] at least
        simp only [List.getLast?_cons_cons, List.getLast?_singleton, Option.toList_some,
          List.mem_singleton, forall_eq] at valid least
        have many := lt_countP_latestFirst (Ne.symm valid) least
        have few := required_le_valid accepted member quorum mode
        unfold Enough
        omega
      · simp at valid
    · simp only [invalid, ne_eq, not_false_eq_true, if_true, List.getLast?_singleton,
        Option.toList_some, List.mem_singleton, forall_eq] at least
      have many := lt_countP_latestFirst invalid least
      unfold Enough
      omega

theorem enough_of_le_priority (priority : group.1.syncrepMethod = .priority)
    (least : ∀ entry ∈ snapshot.decisive mode group, ptr ≤ entry) :
    snapshot.Enough mode group ptr := by
  simp only [decisive, offered, priority, offeredByPriority] at least
  by_cases old : (snapshot.syncRepGetSyncStandbysInGroup group.1 group.2 none).any (·.tooOld mode)
  · rw [if_pos old] at least
    have lenient : snapshot.mostAvailableSync = true := by
      obtain ⟨stby, found, stale⟩ := List.any_eq_true.mp old
      cases setting : snapshot.mostAvailableSync with
      | true => rfl
      | false =>
        have fresh := not_tooOld setting ((members_subperm none).subset found) mode
        rw [fresh] at stale
        cases stale
    apply Enough.of_members (members_subperm (some mode))
    · intro stby found
      exact least _ (List.mem_append_right _ (List.mem_map_of_mem found))
    · rw [priority_length priority, required, if_pos lenient]
      simp
  · rw [if_neg old] at least
    apply Enough.of_members (members_subperm none)
    · intro stby found
      exact least _ (List.mem_map_of_mem found)
    · exact required_le_members accepted member mode

/-- A position at or before all offers that a group's standbys are needed for is on enough of
them. -/
theorem enough_of_le_decisive (valid : 0 ∉ snapshot.decisive mode group)
    (count : group.1.syncrepMethod = .quorum → snapshot.required mode group ≤ snapshot.narrowed group)
    (least : ∀ entry ∈ snapshot.decisive mode group, ptr ≤ entry) :
    snapshot.Enough mode group ptr := by
  cases method : group.1.syncrepMethod with
  | priority => exact enough_of_le_priority accepted member method least
  | quorum => exact enough_of_le_quorum accepted member method (count method) valid least

/-- A group that needs standbys has an offer. -/
theorem decisive_ne_nil (needed : snapshot.required mode group ≠ 0)
    (count : group.1.syncrepMethod = .quorum → snapshot.required mode group ≤ snapshot.narrowed group) :
    snapshot.decisive mode group ≠ [] := by
  intro empty
  have any (ptr : Nat) : snapshot.Enough mode group ptr :=
    enough_of_le_decisive accepted member (by simp [empty]) count (by simp [empty])
  have beyond : (snapshot.eligible group.1 group.2).countP (fun stby =>
      ((snapshot.eligible group.1 group.2).map (·.position mode)).sum + 1 ≤ stby.position mode) = 0 := by
    rw [List.countP_eq_zero]
    intro stby found
    have below := List.le_sum_of_mem (List.mem_map_of_mem (f := (·.position mode)) found)
    simpa using below
  exact needed (Nat.eq_zero_of_le_zero ((any _).trans_eq beyond))

end

end Counting

section Returned

variable {snapshot : Snapshot} {memory : Uninitialised} {checkAmSync : Bool}

theorem judge_accepted (present : snapshot.syncRepGetSyncStandbys ≠ [])
    (judged : (snapshot.judgeSyncStandbysNum snapshot.syncRepGetSyncStandbys).1 = true) :
    snapshot.Accepted := by
  unfold Accepted
  cases lenient : snapshot.mostAvailableSync with
  | true => exact Or.inl rfl
  | false =>
    refine Or.inr ?_
    intro group member
    rw [← inGroup_syncRepGetSyncStandbys member]
    cases named : snapshot.config with
    | none => simp [groups, named] at member
    | some configs =>
      simp only [groups, named, Option.getD_some] at member
      simp only [judgeSyncStandbysNum, checkSyncStandbysNum, named, if_neg present] at judged
      by_cases all : configs.zipIdx.all fun group => decide
          (group.1.numSync ≤ (inGroup snapshot.syncRepGetSyncStandbys group.2).length)
      · exact of_decide_eq_true (List.all_eq_true.mp all group member)
      · simp [all, lenient] at judged

/-- A call that returns true with standbys present. -/
theorem returned_spec (present : snapshot.syncRepGetSyncStandbys ≠ [])
    (returned : (snapshot.syncRepGetSyncRecPtr memory checkAmSync).result = true) :
    snapshot.Accepted ∧ (snapshot.syncRepGetSyncRecPtr memory checkAmSync).ptr =
      snapshot.fillInvalid (snapshot.groups.zipIdx.foldl
        (snapshot.recordGroup memory snapshot.syncRepGetSyncStandbys) fun _ => 0) := by
  simp only [syncRepGetSyncRecPtr, if_neg present] at returned ⊢
  split at returned
  · cases returned
  · rename_i asked
    split at returned
    · cases returned
    · rename_i judged
      rw [if_neg asked, if_neg judged]
      exact ⟨judge_accepted present (by simpa using judged), rfl⟩

theorem decisive_suffix (mode : SyncRepWaitMode) (group : SyncRepConfigData × Nat) :
    ∃ replaced, snapshot.offered mode group = replaced ++ snapshot.decisive mode group := by
  unfold decisive
  split
  · exact ⟨[], rfl⟩
  · rcases List.eq_nil_or_concat' (snapshot.offered mode group) with empty | ⟨replaced, last, offers⟩
    · exact ⟨[], by rw [empty]; rfl⟩
    · exact ⟨replaced, by rw [offers, List.getLast?_concat]; rfl⟩

/-- What is recorded from a group on that offers valid positions at last, and is followed by valid
ones. -/
theorem recorded_le {mode : SyncRepWaitMode} {group : SyncRepConfigData × Nat}
    (member : group ∈ snapshot.groups.zipIdx) (written : snapshot.Written group)
    (valid : 0 ∉ snapshot.decisive mode group) (nonempty : snapshot.decisive mode group ≠ [])
    (unbroken : ∀ later ∈ snapshot.groups.zipIdx, group.2 < later.2 →
      snapshot.Written later ∧ 0 ∉ snapshot.offered mode later) :
    (∀ entry ∈ snapshot.decisive mode group, snapshot.groups.zipIdx.foldl
        (snapshot.recordGroup memory snapshot.syncRepGetSyncStandbys) (fun _ => 0) mode ≤ entry) ∧
      snapshot.groups.zipIdx.foldl
        (snapshot.recordGroup memory snapshot.syncRepGetSyncStandbys) (fun _ => 0) mode ≠ 0 := by
  obtain ⟨before, after, parts⟩ := List.append_of_mem member
  have following : ∀ later ∈ after, later ∈ snapshot.groups.zipIdx ∧ group.2 < later.2 := by
    intro later found
    have increasing : (snapshot.groups.zipIdx.map (·.2)).Pairwise (· < ·) := by
      rw [List.zipIdx_map_snd]
      exact List.pairwise_lt_range'
    rw [parts, List.map_append, List.map_cons, List.pairwise_append] at increasing
    exact ⟨by rw [parts]; simp [found],
      List.rel_of_pairwise_cons increasing.2.1 (List.mem_map_of_mem found)⟩
  have included : ∀ other ∈ group :: after, other ∈ snapshot.groups.zipIdx ∧ snapshot.Written other := by
    refine List.forall_mem_cons.mpr ⟨⟨member, written⟩, fun later found => ?_⟩
    obtain ⟨inside, behind⟩ := following later found
    exact ⟨inside, (unbroken later inside behind).1⟩
  have set : 0 ∉ snapshot.decisive mode group ++ after.flatMap (snapshot.offered mode) := by
    rw [List.mem_append, not_or]
    refine ⟨valid, fun invalid => ?_⟩
    obtain ⟨later, found, bad⟩ := List.mem_flatMap.mp invalid
    obtain ⟨inside, behind⟩ := following later found
    exact (unbroken later inside behind).2 bad
  obtain ⟨replaced, offers⟩ := decisive_suffix mode group
  rw [parts, List.foldl_append, recordGroups_record memory mode (group :: after) included,
    List.flatMap_cons, offers, List.append_assoc, List.foldl_append]
  obtain ⟨least, held⟩ := Lib.foldl_keepLeast (replaced.foldl Lib.keepLeast _) set
  exact ⟨fun entry offer => least entry (List.mem_append_left _ offer), held (by simp [nonempty])⟩

/-- With standbys present, every returned position is on the required standbys of every group whose
valid offers are followed by no invalid one. -/
theorem syncRepGetSyncRecPtr_enough (present : snapshot.syncRepGetSyncStandbys ≠ [])
    (returned : (snapshot.syncRepGetSyncRecPtr memory checkAmSync).result = true) :
    ∀ mode, ∀ group ∈ snapshot.groups.zipIdx, snapshot.Kept mode group →
      snapshot.Enough mode group ((snapshot.syncRepGetSyncRecPtr memory checkAmSync).ptr mode) := by
  obtain ⟨accepted, ptr⟩ := returned_spec present returned
  rintro mode group member (idle | ⟨⟨written, valid, count⟩, unbroken⟩)
  · unfold Enough
    omega
  · by_cases needed : snapshot.required mode group = 0
    · unfold Enough
      omega
    · have nonempty := decisive_ne_nil accepted member needed count
      obtain ⟨least, held⟩ := @recorded_le snapshot memory mode group member written valid nonempty unbroken
      rw [ptr]
      have kept : snapshot.fillInvalid (snapshot.groups.zipIdx.foldl
          (snapshot.recordGroup memory snapshot.syncRepGetSyncStandbys) fun _ => 0) mode =
          snapshot.groups.zipIdx.foldl
            (snapshot.recordGroup memory snapshot.syncRepGetSyncStandbys) (fun _ => 0) mode := by
        cases mode <;> exact if_neg held
      rw [kept]
      exact enough_of_le_decisive accepted member valid count least

end Returned

/-- `ANY 1 (a), ANY 2 (b1, b2)` with `b1` at 500 and the positions of `b2` ignored. -/
def twoGroups (first : Nat) : Snapshot where
  walsnds := [
    { pid := 1, position := fun _ => first, lastChangeTime := fun _ => 9000000,
      syncStandbyPriority := 1, syncStandbyGroup := 0 },
    { pid := 2, position := fun _ => 500, lastChangeTime := fun _ => 9000000,
      syncStandbyPriority := 1, syncStandbyGroup := 1 },
    { pid := 3, position := fun _ => 300, lastChangeTime := fun _ => 8000000,
      syncStandbyPriority := 1, syncStandbyGroup := 1 }]
  myWalSnd := some 0
  config := some [⟨.quorum, 1⟩, ⟨.quorum, 2⟩]
  mostAvailableSync := true
  now := 9000000
  ignoreStandbyLsnWindow := 1000
  keepSyncWindow := 0
  keepSyncWindowStart := 0
  outKeepSyncWindow := false
  xlogWriteRecPtr := 600
  flushRecPtr := 600

def zeroed : Uninitialised := ⟨fun _ _ _ => 0, fun _ _ => 0⟩

/-- The groups the other way round: the invalid position of the first is followed by 700. -/
def swappedGroups : Snapshot :=
  { twoGroups 700 with
    config := some [⟨.quorum, 2⟩, ⟨.quorum, 1⟩]
    walsnds := (twoGroups 700).walsnds.map fun walsnd =>
      { walsnd with syncStandbyGroup := 1 - walsnd.syncStandbyGroup } }

theorem syncRepGetSyncRecPtr_enough_swapped :
    swappedGroups.offered .flush (⟨.quorum, 2⟩, 0) = [0, 500] ∧
      ∀ mode, ∀ group ∈ swappedGroups.groups.zipIdx, swappedGroups.Enough mode group
        ((swappedGroups.syncRepGetSyncRecPtr zeroed true).ptr mode) := by
  refine ⟨by decide, fun mode group member => ?_⟩
  have kept : ∀ mode, ∀ group ∈ swappedGroups.groups.zipIdx, swappedGroups.Kept mode group := by
    intro mode
    cases mode <;> decide
  exact syncRepGetSyncRecPtr_enough (by decide) (by decide) mode group member (kept mode group member)

/-- With the standby of the first group at 100 the call reports 500 all the same. -/
theorem syncRepGetSyncRecPtr_overtakes : ((twoGroups 100).syncRepGetSyncRecPtr zeroed true).result = true ∧
      (twoGroups 100).syncRepGetSyncStandbys ≠ [] ∧
      ((twoGroups 100).syncRepGetSyncRecPtr zeroed true).ptr .flush = 500 ∧
      ¬ ∀ mode, ∀ group ∈ (twoGroups 100).groups.zipIdx, (twoGroups 100).Enough mode group
        (((twoGroups 100).syncRepGetSyncRecPtr zeroed true).ptr mode) := by
  refine ⟨by decide, by decide, by decide, ?_⟩
  intro sound
  have first := sound .flush (⟨.quorum, 1⟩, 0) (by decide)
  revert first
  decide

end Snapshot

end OpenGauss.Replication
