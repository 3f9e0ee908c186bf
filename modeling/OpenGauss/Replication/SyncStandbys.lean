import Mathlib.Data.List.TakeWhile
import OpenGauss.Lib.Least
import OpenGauss.Replication.AtomicUpdate

/-! Which positions `SyncRepGetSyncRecPtr` reports. One call reads one snapshot of the wal senders;
the four outputs are indexed by the wait mode they belong to. -/

namespace OpenGauss.Replication

inductive WalSndState where
  | startup | backup | catchup | uwalCatchup | uwalCatchupMsgSent | uwalCatchupEnd | streaming
  deriving DecidableEq, Repr

inductive ServerMode where
  | unknown | normal | primary | standby | cascadeStandby | pending | recovery | standbyCluster
  | mainStandby
  deriving DecidableEq, Repr

inductive SyncRepMethod where
  | priority | quorum
  deriving DecidableEq, Repr

structure SyncRepConfigData where
  syncrepMethod : SyncRepMethod
  numSync : Nat
  deriving DecidableEq, Repr

/-- The fields of a shared wal sender that decide synchronous replication. -/
structure WalSnd where
  pid : Nat
  state : WalSndState := .streaming
  peerRole : ServerMode := .standby
  position : SyncRepWaitMode → Nat
  lastChangeTime : SyncRepWaitMode → Int
  syncStandbyPriority : Nat
  syncStandbyGroup : Nat
  isCrossCluster : Bool := false

structure SyncRepStandbyData where
  position : SyncRepWaitMode → Nat
  tooOld : SyncRepWaitMode → Bool
  syncStandbyPriority : Nat
  syncStandbyGroup : Nat
  isCrossCluster : Bool
  walsndIndex : Nat
  isMe : Bool

/-- What one call reads. `config` is `none` when no synchronous standby is named. -/
structure Snapshot where
  walsnds : List WalSnd
  myWalSnd : Option Nat := none
  config : Option (List SyncRepConfigData)
  mostAvailableSync : Bool
  now : Int
  ignoreStandbyLsnWindow : Int
  keepSyncWindow : Int
  keepSyncWindowStart : Int
  outKeepSyncWindow : Bool
  xlogWriteRecPtr : Nat
  flushRecPtr : Nat

/-- Memory that is read before it was written: the entries of a position array that no standby
fills, and the word in front of the array. -/
structure Uninitialised where
  unfilled : Nat → SyncRepWaitMode → Nat → Nat
  inFront : Nat → SyncRepWaitMode → Nat

inductive SyncStandbyNumState where
  | empty | notEnough | enough
  deriving DecidableEq, Repr

namespace Snapshot

variable (snapshot : Snapshot)

def groups : List SyncRepConfigData := snapshot.config.getD []

def ifIgnoreStandbyLsn (lastTime : Int) : Bool :=
  snapshot.mostAvailableSync && decide (0 < snapshot.ignoreStandbyLsnWindow) &&
    decide (lastTime + snapshot.ignoreStandbyLsnWindow * 1000 ≤ snapshot.now)

def standbyData (entry : WalSnd × Nat) : SyncRepStandbyData where
  position := entry.1.position
  tooOld mode := snapshot.ifIgnoreStandbyLsn (entry.1.lastChangeTime mode)
  syncStandbyPriority := entry.1.syncStandbyPriority
  syncStandbyGroup := entry.1.syncStandbyGroup
  isCrossCluster := entry.1.isCrossCluster
  walsndIndex := entry.2
  isMe := snapshot.myWalSnd == some entry.2

variable (config : SyncRepConfigData)

/-- The tests a wal sender has to pass to count for a group, before too old positions are
considered. -/
def isCandidate (groupid : Nat) (walsnd : WalSnd) : Bool :=
  walsnd.pid != 0 && walsnd.syncStandbyPriority != 0 && walsnd.syncStandbyGroup == groupid &&
    walsnd.position .flush != 0 && walsnd.state == .streaming &&
    !(config.syncrepMethod == .quorum && walsnd.peerRole == .standbyCluster)

/-- Every standby of a group that is considered at all, in the order of the wal sender array. -/
def eligible (groupid : Nat) : List SyncRepStandbyData :=
  (snapshot.walsnds.zipIdx.filter fun entry => isCandidate config groupid entry.1).map
    snapshot.standbyData

def standbyPriorityLe (first second : SyncRepStandbyData) : Prop :=
  first.syncStandbyPriority < second.syncStandbyPriority ∨
    first.syncStandbyPriority = second.syncStandbyPriority ∧ first.walsndIndex ≤ second.walsndIndex

instance : DecidableRel standbyPriorityLe :=
  fun _ _ => inferInstanceAs (Decidable (_ ∨ _ ∧ _))

/-- The standbys reported for a group; a mode leaves out those whose position is too old. -/
def syncRepGetSyncStandbysInGroup (groupid : Nat) (mode : Option SyncRepWaitMode)
    : List SyncRepStandbyData :=
  let found := (snapshot.eligible config groupid).filter fun stby => !mode.any stby.tooOld
  if config.syncrepMethod = .priority ∧ config.numSync < found.length then
    (found.insertionSort standbyPriorityLe).take config.numSync
  else found

def syncRepGetSyncStandbys : List SyncRepStandbyData :=
  snapshot.groups.zipIdx.flatMap fun group =>
    snapshot.syncRepGetSyncStandbysInGroup group.1 group.2 none

variable (standbys : List SyncRepStandbyData)

def inGroup (groupid : Nat) : List SyncRepStandbyData :=
  standbys.filter fun stby => stby.syncStandbyGroup == groupid

def checkSyncStandbysNum : SyncStandbyNumState :=
  match snapshot.config with
  | none => .enough
  | some groups =>
    if standbys = [] then .empty
    else if groups.zipIdx.all fun group =>
        decide (group.1.numSync ≤ (inGroup standbys group.2).length) then .enough
    else .notEnough

/-- Result of `DelayIntoMostAvaSync` and the `keep_sync_window` fields it leaves behind. -/
def delayIntoMostAvaSync (state : SyncStandbyNumState) : Bool × Snapshot :=
  if !snapshot.mostAvailableSync || snapshot.keepSyncWindow == 0 then (false, snapshot)
  else if state = .enough then
    if snapshot.keepSyncWindowStart ≠ 0 then
      (false, { snapshot with keepSyncWindowStart := 0, outKeepSyncWindow := false })
    else (false, snapshot)
  else if snapshot.keepSyncWindowStart = 0 then
    (true, { snapshot with keepSyncWindowStart := snapshot.now })
  else if !snapshot.outKeepSyncWindow then
    let diffSec := max 0 (snapshot.now - snapshot.keepSyncWindowStart) / 1000000
    if diffSec < snapshot.keepSyncWindow then (true, snapshot)
    else (false, { snapshot with outKeepSyncWindow := true })
  else (false, snapshot)

def judgeSyncStandbysNum : Bool × Snapshot :=
  match snapshot.checkSyncStandbysNum standbys with
  | .enough => (true, (snapshot.delayIntoMostAvaSync .enough).2)
  | state =>
    if snapshot.mostAvailableSync then
      let delayed := snapshot.delayIntoMostAvaSync state
      (!delayed.1, delayed.2)
    else (false, snapshot)

def recordOldest (known next : Nat) : Nat :=
  if known = 0 ∨ ¬ known ≤ next then next else known

variable (mode : SyncRepWaitMode)

/-- One mode of `SyncRepGetOldestSyncRecPtrByMode`. -/
def syncRepGetOldestSyncRecPtrByMode (out : Nat)
    (standbys : List SyncRepStandbyData) : Nat :=
  standbys.foldl (fun known stby => recordOldest known (stby.position mode)) out

/-- One mode of the scan in `SyncRepGetOldestSyncRecPtr`: the flag becomes true at the first too
old position and stops the recording. -/
def oldestScan (state : Nat × Bool) (stby : SyncRepStandbyData) : Nat × Bool :=
  let hasInvalid := state.2 || stby.tooOld mode
  (if hasInvalid then state.1 else recordOldest state.1 (stby.position mode), hasInvalid)

def syncRepGetOldestSyncRecPtr (out : SyncRepWaitMode → Nat) (standbys : List SyncRepStandbyData)
    (groupid : Nat) :
    SyncRepWaitMode → Nat := fun mode =>
  let scanned := (inGroup standbys groupid).foldl (oldestScan mode) (out mode, false)
  if scanned.2 then
    syncRepGetOldestSyncRecPtrByMode mode scanned.1
      (snapshot.syncRepGetSyncStandbysInGroup config groupid (some mode))
  else scanned.1

variable (memory : Uninitialised)

/-- One position array of a group: cross-cluster standbys fill no entry, a too old position is
written as invalid, and what is left stays as the allocation found it. -/
def positionArray (mode : SyncRepWaitMode) (groupid : Nat)
    (members : List SyncRepStandbyData) : List Nat :=
  let filled := (members.filter fun stby => !stby.isCrossCluster).map fun stby =>
    if stby.tooOld mode then 0 else stby.position mode
  filled ++ (List.range (members.length - filled.length)).map (memory.unfilled groupid mode)

def validNum (members : List SyncRepStandbyData) : Nat :=
  members.countP fun stby => !stby.isCrossCluster && !stby.tooOld mode

def recordNth (known next : Nat) : Nat :=
  if known = 0 ∨ next ≤ known then next else known

/-- `nth` is narrowed to eight bits by the parameter it is passed in. -/
def syncRepGetNthLatestSyncRecPtr (out : SyncRepWaitMode → Nat) (standbys : List SyncRepStandbyData)
    (groupid nth : Nat) :
    SyncRepWaitMode → Nat := fun mode =>
  let members := inGroup standbys groupid
  if members = [] then out mode
  else
    let array := (positionArray memory mode groupid members).insertionSort (· ≥ ·)
    let nth := nth % 256
    let nth := if snapshot.mostAvailableSync ∧ members.length < nth then members.length % 256 else nth
    let entry := match nth with
      | 0 => memory.inFront groupid mode
      | index + 1 => array.getD index 0
    let known := recordNth (out mode) entry
    if known = 0 ∧ 0 < validNum mode members then array.getD (validNum mode members - 1) 0
    else known

def recordGroup (standbys : List SyncRepStandbyData) (out : SyncRepWaitMode → Nat)
    (group : SyncRepConfigData × Nat) : SyncRepWaitMode → Nat :=
  match group.1.syncrepMethod with
  | .priority => snapshot.syncRepGetOldestSyncRecPtr group.1 out standbys group.2
  | .quorum => snapshot.syncRepGetNthLatestSyncRecPtr memory out standbys group.2 group.1.numSync

/-- The primary's own position that stands in for a mode nobody reported. -/
def ownRecPtr : SyncRepWaitMode → Nat
  | .receive | .write => snapshot.xlogWriteRecPtr
  | .flush | .apply => snapshot.flushRecPtr

def orElse (known other : Nat) : Nat := if known = 0 then other else known

/-- Invalid outputs are filled in, the received and replayed ones from the other two. -/
def fillInvalid (out : SyncRepWaitMode → Nat) : SyncRepWaitMode → Nat
  | .write => orElse (out .write) snapshot.xlogWriteRecPtr
  | .flush => orElse (out .flush) snapshot.flushRecPtr
  | .receive => orElse (out .receive) (orElse (out .write) snapshot.xlogWriteRecPtr)
  | .apply => orElse (out .apply) (orElse (out .flush) snapshot.flushRecPtr)

def amSync : Bool :=
  standbys.any (·.isMe) ||
    standbys.any fun stby =>
      stby.tooOld .receive || stby.tooOld .write || stby.tooOld .flush || stby.tooOld .apply

structure SyncRecPtr where
  result : Bool
  ptr : SyncRepWaitMode → Nat
  amSync : Bool
  snapshot : Snapshot

def syncRepGetSyncRecPtr (checkAmSync : Bool) : SyncRecPtr :=
  let standbys := snapshot.syncRepGetSyncStandbys
  let amSync := amSync standbys
  let judged := snapshot.judgeSyncStandbysNum standbys
  if !amSync && checkAmSync || snapshot.config.isNone then ⟨false, fun _ => 0, amSync, snapshot⟩
  else if !judged.1 then ⟨false, fun _ => 0, amSync, judged.2⟩
  else if standbys = [] then ⟨true, snapshot.ownRecPtr, amSync, judged.2⟩
  else
    let out := snapshot.groups.zipIdx.foldl (snapshot.recordGroup memory standbys) fun _ => 0
    ⟨true, snapshot.fillInvalid out, amSync, judged.2⟩

variable (group : SyncRepConfigData × Nat)

/-- How many standbys of a group have to be at a position before a commit may be released at it. -/
def required : Nat :=
  if snapshot.mostAvailableSync then
    min group.1.numSync ((snapshot.eligible group.1 group.2).countP fun stby => !stby.tooOld mode)
  else group.1.numSync

def Enough (ptr : Nat) : Prop :=
  snapshot.required mode group ≤
    (snapshot.eligible group.1 group.2).countP fun stby => ptr ≤ stby.position mode

instance (snapshot : Snapshot) (mode : SyncRepWaitMode) (group : SyncRepConfigData × Nat)
    (ptr : Nat) : Decidable (snapshot.Enough mode group ptr) :=
  inferInstanceAs (Decidable (_ ≤ _))

def reported (stby : SyncRepStandbyData) : Nat :=
  if stby.tooOld mode then 0 else stby.position mode

/-- The count a quorum group is asked for, narrowed to eight bits. -/
def narrowed : Nat :=
  let nth := group.1.numSync % 256
  let members := (snapshot.eligible group.1 group.2).length
  if snapshot.mostAvailableSync ∧ members < nth then members % 256 else nth

/-- The positions of a quorum group, latest first, with the too old ones as invalid. -/
def latestFirst : List Nat :=
  ((snapshot.eligible group.1 group.2).map (reported mode)).insertionSort (· ≥ ·)

/-- What a quorum group offers to the output of a mode: its n-th latest position or, when that is
invalid, the invalid position followed by the oldest one that is not too old. -/
def offeredByQuorum : List Nat :=
  let latest := snapshot.latestFirst mode group
  let valid := (snapshot.eligible group.1 group.2).countP fun stby => !stby.tooOld mode
  let entry := latest.getD (snapshot.narrowed group - 1) 0
  if latest = [] then []
  else if entry ≠ 0 then [entry]
  else if 0 < valid then [0, latest.getD (valid - 1) 0]
  else [0]

/-- What a priority group offers: the positions of its standbys or, from the first too old one
on, those of the standbys that are not too old. -/
def offeredByPriority : List Nat :=
  let members := snapshot.syncRepGetSyncStandbysInGroup group.1 group.2 none
  if members.any (·.tooOld mode) then
    (members.takeWhile fun stby => !stby.tooOld mode).map (·.position mode) ++
      (snapshot.syncRepGetSyncStandbysInGroup group.1 group.2 (some mode)).map (·.position mode)
  else members.map (·.position mode)

def offered : List Nat :=
  match group.1.syncrepMethod with
  | .priority => snapshot.offeredByPriority mode group
  | .quorum => snapshot.offeredByQuorum mode group

/-- The offers that a group's standbys are needed for: all of a priority group, and the last one of
a quorum group, which replaces its invalid position. -/
def decisive : List Nat :=
  match group.1.syncrepMethod with
  | .priority => snapshot.offered mode group
  | .quorum => (snapshot.offered mode group).getLast?.toList

/-- A quorum group reads only array entries it has written. -/
def Written : Prop :=
  group.1.syncrepMethod = .quorum → snapshot.eligible group.1 group.2 ≠ [] →
    snapshot.narrowed group ≠ 0 ∧
      ∀ stby ∈ snapshot.eligible group.1 group.2, stby.isCrossCluster = false

instance (snapshot : Snapshot) (group : SyncRepConfigData × Nat) :
    Decidable (snapshot.Written group) :=
  inferInstanceAs (Decidable (_ → _ → _ ∧ _))

/-- A group's valid offers are followed by no invalid one: it needs no standbys, or it offers enough
valid positions and every later group offers valid ones only. -/
def Kept : Prop :=
  snapshot.required mode group = 0 ∨
    (snapshot.Written group ∧ 0 ∉ snapshot.decisive mode group ∧
      (group.1.syncrepMethod = .quorum → snapshot.required mode group ≤ snapshot.narrowed group)) ∧
    ∀ later ∈ snapshot.groups.zipIdx, group.2 < later.2 →
      snapshot.Written later ∧ 0 ∉ snapshot.offered mode later

instance (snapshot : Snapshot) (mode : SyncRepWaitMode) (group : SyncRepConfigData × Nat) :
    Decidable (snapshot.Kept mode group) :=
  inferInstanceAs (Decidable (_ ∨ (_ ∧ _ ∧ (_ → _)) ∧ _))

theorem recordNth_eq : recordNth = (Lib.keepLeast : Nat → Nat → Nat) := rfl

theorem recordOldest_eq : recordOldest = (Lib.keepLeast : Nat → Nat → Nat) := by
  funext known next
  unfold recordOldest Lib.keepLeast
  simp only [Nat.bot_eq_zero]
  split <;> split <;> omega

section Members

variable {snapshot : Snapshot} {group : SyncRepConfigData × Nat}

theorem mem_eligible_group {config : SyncRepConfigData} {groupid : Nat} {stby : SyncRepStandbyData}
    (member : stby ∈ snapshot.eligible config groupid) : stby.syncStandbyGroup = groupid := by
  obtain ⟨entry, found, rfl⟩ := List.mem_map.mp member
  have candidate := (List.mem_filter.mp found).2
  simp only [isCandidate, Bool.and_eq_true, beq_iff_eq] at candidate
  exact candidate.1.1.1.2

theorem inGroup_subperm (config : SyncRepConfigData) (groupid : Nat) (mode : Option SyncRepWaitMode) :
    (snapshot.syncRepGetSyncStandbysInGroup config groupid mode).Subperm
      ((snapshot.eligible config groupid).filter fun stby => !mode.any stby.tooOld) := by
  simp only [syncRepGetSyncStandbysInGroup]
  split
  · exact (List.take_sublist _ _).subperm.trans (List.perm_insertionSort _ _).subperm
  · exact List.Subperm.refl _

theorem quorum_members (quorum : group.1.syncrepMethod = .quorum) :
    snapshot.syncRepGetSyncStandbysInGroup group.1 group.2 none = snapshot.eligible group.1 group.2 := by
  simp [syncRepGetSyncStandbysInGroup, quorum]

theorem priority_length (priority : group.1.syncrepMethod = .priority) (mode : Option SyncRepWaitMode) :
    (snapshot.syncRepGetSyncStandbysInGroup group.1 group.2 mode).length = min group.1.numSync
        ((snapshot.eligible group.1 group.2).countP fun stby => !mode.any stby.tooOld) := by
  rw [List.countP_eq_length_filter]
  simp only [syncRepGetSyncStandbysInGroup]
  split
  · rw [List.length_take, List.length_insertionSort]
  · rename_i few
    simp only [priority, true_and, not_lt] at few
    exact (Nat.min_eq_right few).symm

/-- The standbys collected from all groups fall apart into those of each group again. -/
theorem inGroup_flatMap (select : SyncRepConfigData × Nat → List SyncRepStandbyData)
    (labelled : ∀ group, ∀ stby ∈ select group, stby.syncStandbyGroup = group.2)
    (configs : List SyncRepConfigData) (start : Nat) :
    (∀ groupid < start, inGroup ((configs.zipIdx start).flatMap select) groupid = []) ∧
      ∀ group ∈ configs.zipIdx start,
        inGroup ((configs.zipIdx start).flatMap select) group.2 = select group := by
  have other : ∀ group : SyncRepConfigData × Nat, ∀ groupid, groupid ≠ group.2 →
      inGroup (select group) groupid = [] := by
    intro group groupid different
    rw [inGroup, List.filter_eq_nil_iff]
    intro stby member
    simpa [labelled group stby member] using Ne.symm different
  induction configs generalizing start with
  | nil => simp [inGroup]
  | cons config rest ih =>
    obtain ⟨below, each⟩ := ih (start + 1)
    have split : ∀ groupid, inGroup (((config :: rest).zipIdx start).flatMap select) groupid =
          inGroup (select (config, start)) groupid ++
            inGroup ((rest.zipIdx (start + 1)).flatMap select) groupid := by
      intro groupid
      simp [inGroup, List.zipIdx_cons]
    refine ⟨?_, ?_⟩
    · intro groupid low
      rw [split, below groupid (by omega), other _ _ (by simp; omega), List.append_nil]
    · intro group member
      rw [split]
      rcases List.mem_cons.mp member with rfl | later
      · rw [below _ (by simp), List.append_nil, inGroup, List.filter_eq_self]
        intro stby found
        simp [labelled _ stby found]
      · have high : start + 1 ≤ group.2 := (List.mem_zipIdx later).1
        rw [other _ _ (by simp; omega), each group later, List.nil_append]

theorem inGroup_syncRepGetSyncStandbys (member : group ∈ snapshot.groups.zipIdx) :
    inGroup snapshot.syncRepGetSyncStandbys group.2 =
      snapshot.syncRepGetSyncStandbysInGroup group.1 group.2 none := by
  apply (inGroup_flatMap _ _ snapshot.groups 0).2 group member
  intro group stby found
  exact mem_eligible_group ((List.mem_filter.mp ((inGroup_subperm group.1 group.2 none).subset found)).1)

end Members

section Recording

variable {snapshot : Snapshot} {group : SyncRepConfigData × Nat}

variable (memory : Uninitialised) (mode : SyncRepWaitMode) (known : Nat)
  (members : List SyncRepStandbyData)

theorem foldl_oldestScan_stopped :
    members.foldl (oldestScan mode) (known, true) = (known, true) := by
  induction members with
  | nil => rfl
  | cons stby rest ih => simpa [oldestScan] using ih

theorem foldl_oldestScan :
    members.foldl (oldestScan mode) (known, false) =
      (((members.takeWhile fun stby => !stby.tooOld mode).map (·.position mode)).foldl
        Lib.keepLeast known, members.any (·.tooOld mode)) := by
  induction members generalizing known with
  | nil => rfl
  | cons stby rest ih =>
    by_cases old : stby.tooOld mode
    · simpa [oldestScan, old] using foldl_oldestScan_stopped mode known rest
    · simpa [oldestScan, old, recordOldest_eq] using ih (Lib.keepLeast known (stby.position mode))

theorem oldest_records (priority : group.1.syncrepMethod = .priority)
    (member : group ∈ snapshot.groups.zipIdx) (out : SyncRepWaitMode → Nat)
    (mode : SyncRepWaitMode) :
    snapshot.syncRepGetOldestSyncRecPtr group.1 out snapshot.syncRepGetSyncStandbys group.2 mode =
      (snapshot.offered mode group).foldl Lib.keepLeast (out mode) := by
  simp only [syncRepGetOldestSyncRecPtr, inGroup_syncRepGetSyncStandbys member, foldl_oldestScan,
    offered, priority, offeredByPriority]
  split
  · rw [List.foldl_append, syncRepGetOldestSyncRecPtrByMode, List.foldl_map, List.foldl_map, recordOldest_eq]
  · rename_i fresh
    rw [List.takeWhile_eq_self_iff.mpr]
    simpa using fresh

theorem positionArray_filled (groupid : Nat) {members : List SyncRepStandbyData}
    (near : ∀ stby ∈ members, stby.isCrossCluster = false) :
    positionArray memory mode groupid members = members.map (reported mode) := by
  have all : (members.filter fun stby => !stby.isCrossCluster) = members :=
    List.filter_eq_self.mpr (by simpa using near)
  simp only [positionArray, all]
  simp [reported]

theorem validNum_filled {members : List SyncRepStandbyData}
    (near : ∀ stby ∈ members, stby.isCrossCluster = false) :
    validNum mode members = members.countP fun stby => !stby.tooOld mode := by
  apply List.countP_congr
  intro stby member
  simp [near stby member]

theorem keepLeast_valid {known next : Nat} (valid : next ≠ 0) : Lib.keepLeast known next ≠ 0 := by
  unfold Lib.keepLeast
  simp only [Nat.bot_eq_zero]
  split <;> omega

theorem nth_records (written : snapshot.Written group) (quorum : group.1.syncrepMethod = .quorum)
    (member : group ∈ snapshot.groups.zipIdx) (memory : Uninitialised)
    (out : SyncRepWaitMode → Nat) (mode : SyncRepWaitMode) :
    snapshot.syncRepGetNthLatestSyncRecPtr memory out snapshot.syncRepGetSyncStandbys group.2
        group.1.numSync mode =
      (snapshot.offered mode group).foldl Lib.keepLeast (out mode) := by
  simp only [syncRepGetNthLatestSyncRecPtr, inGroup_syncRepGetSyncStandbys member,
    quorum_members quorum, offered, quorum, offeredByQuorum]
  by_cases absent : snapshot.eligible group.1 group.2 = []
  · simp [absent, latestFirst]
  · obtain ⟨positive, near⟩ := written quorum absent
    have nonempty : snapshot.latestFirst mode group ≠ [] := by
      intro empty
      have lengths := congrArg List.length empty
      simp [latestFirst, absent] at lengths
    have count : (if snapshot.mostAvailableSync = true ∧
          (snapshot.eligible group.1 group.2).length < group.1.numSync % 256 then
          (snapshot.eligible group.1 group.2).length % 256 else group.1.numSync % 256) =
        snapshot.narrowed group - 1 + 1 := by
      change snapshot.narrowed group = _
      omega
    rw [if_neg absent, if_neg nonempty, count, positionArray_filled memory mode group.2 near,
      validNum_filled mode near]
    simp only [latestFirst, recordNth_eq]
    by_cases valid : (((snapshot.eligible group.1 group.2).map (reported mode)).insertionSort
        (· ≥ ·)).getD (snapshot.narrowed group - 1) 0 = 0
    · have forgot : Lib.keepLeast (out mode) 0 = 0 := by simp [Lib.keepLeast]
      simp only [valid, forgot, ne_eq, not_true_eq_false, if_false, true_and]
      split <;> simp [Lib.keepLeast]
    · simp only [valid, keepLeast_valid valid, ne_eq, not_false_eq_true, if_true, false_and, if_false,
        List.foldl_cons, List.foldl_nil]

/-- Recording a group is recording its offers one after the other. -/
theorem recordGroup_records (written : snapshot.Written group)
    (member : group ∈ snapshot.groups.zipIdx) (memory : Uninitialised)
    (out : SyncRepWaitMode → Nat) (mode : SyncRepWaitMode) :
    snapshot.recordGroup memory snapshot.syncRepGetSyncStandbys out group mode =
      (snapshot.offered mode group).foldl Lib.keepLeast (out mode) := by
  cases method : group.1.syncrepMethod with
  | priority =>
    simp only [recordGroup, method]
    exact oldest_records method member out mode
  | quorum =>
    simp only [recordGroup, method]
    exact nth_records written method member memory out mode

theorem recordGroups_record (memory : Uninitialised) (mode : SyncRepWaitMode)
    (groups : List (SyncRepConfigData × Nat))
    (included : ∀ group ∈ groups, group ∈ snapshot.groups.zipIdx ∧ snapshot.Written group)
    (out : SyncRepWaitMode → Nat) :
    groups.foldl (snapshot.recordGroup memory snapshot.syncRepGetSyncStandbys) out mode =
      (groups.flatMap (snapshot.offered mode)).foldl Lib.keepLeast (out mode) := by
  induction groups generalizing out with
  | nil => rfl
  | cons group rest ih =>
    obtain ⟨member, written⟩ := included group List.mem_cons_self
    rw [List.foldl_cons, List.flatMap_cons, List.foldl_append,
      ih (fun other found => included other (List.mem_cons_of_mem _ found)),
      recordGroup_records written member]

end Recording

end Snapshot

end OpenGauss.Replication
