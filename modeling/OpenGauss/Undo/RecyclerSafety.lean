import OpenGauss.Undo.RecyclerRounds

namespace OpenGauss.Undo

variable {zoneCount : Nat} {system : UndoSystem}

theorem UndoSystem.onZone_invariant (inv : SystemInvariant zoneCount system) {zid : Nat}
    {action : UndoSystem → Nat → UndoSystem}
    (kept : zid < zoneCount → SystemInvariant zoneCount (action system zid)) :
    SystemInvariant zoneCount (system.onZone zoneCount zid action) := by
  unfold UndoSystem.onZone
  split
  · rename_i inside
    exact kept inside
  · exact inv

theorem SystemInvariant.step_eq (inv : SystemInvariant zoneCount system) (event : UndoEvent) :
    system.step zoneCount event = system.act zoneCount event := by
  rw [UndoSystem.step, inv.calm, if_neg Bool.false_ne_true]

theorem UndoSystem.step_invariant (inv : SystemInvariant zoneCount system) {event : UndoEvent}
    (promised : system.Promised event) : SystemInvariant zoneCount (system.step zoneCount event) := by
  rw [inv.step_eq]
  cases event with
  | beginTransaction => exact beginTransaction_invariant inv
  | commitTransaction xid => exact endTransaction_invariant inv xid _
  | abortTransaction xid => exact endTransaction_invariant inv xid _
  | updateRollbackFinish zid pointer =>
    rw [UndoSystem.act]
    exact UndoSystem.onZone_invariant inv fun inside =>
      updateRollbackFinish_invariant inv inside pointer
  | prepareUndoRecord zid request =>
    rw [UndoSystem.act]
    exact UndoSystem.onZone_invariant inv fun inside =>
      prepareUndoRecord_systemInvariant inv inside request
  | undoMetaStep zid =>
    exact UndoSystem.onZone_invariant inv fun inside =>
      undoMetaStep_systemInvariant inv inside promised
  | abandonUndoRecord zid =>
    exact UndoSystem.onZone_invariant inv fun inside => abandonUndoRecord_invariant inv inside
  | resetUndoActionsInfo zid =>
    exact UndoSystem.onZone_invariant inv fun inside => resetUndoActionsInfo_invariant inv inside
  | attachZone zid =>
    exact UndoSystem.onZone_invariant inv fun inside => attachZone_invariant inv inside
  | startRound oldestXmin recycleXmin forceRecycleXid => exact startRound_invariant inv promised
  | recycle => exact (recycle_invariant inv).inv
  | finishPass retry => exact (finishPass_invariant inv retry).1
  | restartRecycler => exact restartRecycler_invariant inv

theorem UndoSystem.run_invariant {events : List UndoEvent}
    (promised : Lib.Along (UndoSystem.step zoneCount) UndoSystem.Promised {} events) :
    SystemInvariant zoneCount (Lib.run (UndoSystem.step zoneCount) {} events) :=
  Lib.run_invariant_along (SystemInvariant zoneCount)
    (fun _ _ allowed inv => UndoSystem.step_invariant inv allowed) promised
    (SystemInvariant.initial zoneCount)

section Frame

/-- What only the recycler changes. -/
structure Untouched (before after : UndoSystem) : Prop where
  globals : after.globals = before.globals
  recycle : ∀ zid, (after.zones zid).recycleTSlotPtr = (before.zones zid).recycleTSlotPtr

theorem Untouched.refl (system : UndoSystem) : Untouched system system := ⟨rfl, fun _ => rfl⟩

theorem Untouched.setZone {zid : Nat} {zone : UndoZone}
    (same : zone.recycleTSlotPtr = (system.zones zid).recycleTSlotPtr) :
    Untouched system (system.setZone zid zone) := by
  refine ⟨rfl, ?_⟩
  intro other
  by_cases here : other = zid
  · subst here
    simpa only [UndoSystem.setZone, Function.update_self] using same
  · simp only [UndoSystem.setZone, Function.update_of_ne here]

theorem Untouched.onZone {zid : Nat} {action : UndoSystem → Nat → UndoSystem}
    (same : Untouched system (action system zid)) :
    Untouched system (system.onZone zoneCount zid action) := by
  unfold UndoSystem.onZone
  split
  · exact same
  · exact Untouched.refl system

theorem prepareUndoRecord_untouched (inv : SystemInvariant zoneCount system) (zid : Nat)
    (request : UndoRequest) : Untouched system (system.prepareUndoRecord zid request) := by
  simp only [UndoSystem.prepareUndoRecord]
  split
  · rename_i enabled
    obtain ⟨undoTail, slotTail, context, result, -⟩ :=
      prepareUndoRecord_cases (inv.zones zid).pointers enabled.1 request
    have same : ((system.zones zid).withTails undoTail slotTail).recycleTSlotPtr =
        (system.zones zid).recycleTSlotPtr := rfl
    rw [result]
    exact ⟨rfl, (Untouched.setZone same).recycle⟩
  · exact Untouched.refl system

theorem undoMetaStep_untouched (system : UndoSystem) (zid : Nat) :
    Untouched system (system.undoMetaStep zid) := by
  unfold UndoSystem.undoMetaStep
  split
  · exact ⟨rfl, fun _ => rfl⟩
  · rename_i result done
    have same : result.1.recycleTSlotPtr = (system.zones zid).recycleTSlotPtr := by
      unfold undoMetaStep at done
      split at done
      · cases done
        rfl
      · cases done
        rfl
      · cases done
        unfold allocateTransSlot
        split <;> rfl
      · unfold updateTransactionSlot at done
        split at done
        · cases done
        · cases done
          rfl
      · cases done
        rfl
    exact ⟨rfl, (Untouched.setZone same).recycle⟩

theorem startRound_untouched (system : UndoSystem) (oldestXmin recycleXmin forceRecycleXid : Nat) :
    Untouched system (system.startRound oldestXmin recycleXmin forceRecycleXid) := by
  unfold UndoSystem.startRound
  split
  · split
    · exact Untouched.refl system
    · exact ⟨rfl, fun _ => rfl⟩
  · exact Untouched.refl system

theorem endTransaction_untouched (system : UndoSystem) (xid : Nat) (status : XidStatus) :
    Untouched system (system.endTransaction zoneCount xid status) := by
  unfold UndoSystem.endTransaction
  split
  · exact ⟨rfl, fun _ => rfl⟩
  · exact Untouched.refl system

theorem updateRollbackFinish_untouched (system : UndoSystem) (zid pointer : Nat) :
    Untouched system (system.updateRollbackFinish zid pointer) := by
  simp only [UndoSystem.updateRollbackFinish]
  split
  · exact Untouched.refl system
  · split
    · exact ⟨rfl, fun _ => rfl⟩
    · exact Untouched.setZone rfl

theorem context_untouched (system : UndoSystem) (zid : Nat) :
    Untouched system (system.abandonUndoRecord zid) ∧ Untouched system (system.resetUndoActionsInfo zid) ∧
      Untouched system (system.attachZone zid) := by
  unfold UndoSystem.abandonUndoRecord UndoSystem.resetUndoActionsInfo UndoSystem.attachZone
  refine ⟨?_, ?_, ?_⟩ <;> split <;> exact ⟨rfl, fun _ => rfl⟩

/-- The events of the recycler's loop over the zones and of its publishing. -/
def UndoEvent.ofRecycler : UndoEvent → Bool
  | .recycle => true
  | .finishPass _ => true
  | .restartRecycler => true
  | _ => false

theorem UndoSystem.act_untouched (inv : SystemInvariant zoneCount system) {event : UndoEvent}
    (other : event.ofRecycler = false) : Untouched system (system.act zoneCount event) := by
  cases event with
  | beginTransaction => exact ⟨rfl, fun _ => rfl⟩
  | commitTransaction xid => exact endTransaction_untouched system xid _
  | abortTransaction xid => exact endTransaction_untouched system xid _
  | updateRollbackFinish zid pointer =>
    rw [UndoSystem.act]
    exact Untouched.onZone (updateRollbackFinish_untouched system zid pointer)
  | prepareUndoRecord zid request =>
    rw [UndoSystem.act]
    exact Untouched.onZone (prepareUndoRecord_untouched inv zid request)
  | undoMetaStep zid => exact Untouched.onZone (undoMetaStep_untouched system zid)
  | abandonUndoRecord zid => exact Untouched.onZone (context_untouched system zid).1
  | resetUndoActionsInfo zid => exact Untouched.onZone (context_untouched system zid).2.1
  | attachZone zid => exact Untouched.onZone (context_untouched system zid).2.2
  | startRound oldestXmin recycleXmin forceRecycleXid =>
    exact startRound_untouched system oldestXmin recycleXmin forceRecycleXid
  | recycle | finishPass | restartRecycler => cases other

end Frame

theorem UndoSystem.recycle_globals (system : UndoSystem) :
    (system.recycle zoneCount).globals = system.globals := by
  unfold UndoSystem.recycle
  repeat' (first | rfl | split)
  simp only [UndoSystem.enterZone]
  split <;> rfl

/-- The published transaction ids never decrease. -/
theorem UndoSystem.step_globals (inv : SystemInvariant zoneCount system) (event : UndoEvent) :
    system.globals.globalFrozenXid ≤ (system.step zoneCount event).globals.globalFrozenXid ∧
      system.globals.globalRecycleXid ≤ (system.step zoneCount event).globals.globalRecycleXid := by
  rw [inv.step_eq]
  cases other : event.ofRecycler with
  | false =>
    rw [(UndoSystem.act_untouched inv other).globals]
    exact ⟨le_rfl, le_rfl⟩
  | true =>
    cases event with
    | recycle =>
      rw [UndoSystem.act, UndoSystem.recycle_globals]
      exact ⟨le_rfl, le_rfl⟩
    | finishPass retry => exact (finishPass_invariant inv retry).2
    | restartRecycler =>
      simp only [UndoSystem.act, UndoSystem.restartRecycler]
      split
      · rename_i absent
        exact ⟨absent.le.trans (Nat.zero_le _), le_rfl⟩
      · exact ⟨le_rfl, le_rfl⟩
    | _ => cases other

theorem UndoSystem.finishPass_zones (system : UndoSystem) (retry : Option Nat) :
    (system.finishPass zoneCount retry).zones = system.zones := by
  unfold UndoSystem.finishPass
  repeat' (first | rfl | split)

/-- A recycle pointer that moves is moved by the recycler, which leaves transactions and slots
alone. -/
theorem UndoSystem.step_recycleTSlotPtr (inv : SystemInvariant zoneCount system) (event : UndoEvent)
    (zid : Nat) :
    ((system.step zoneCount event).zones zid).recycleTSlotPtr = (system.zones zid).recycleTSlotPtr ∨
      (system.step zoneCount event).xacts = system.xacts ∧
        ((system.step zoneCount event).zones zid).slots = (system.zones zid).slots := by
  rw [inv.step_eq]
  cases other : event.ofRecycler with
  | false => exact Or.inl ((UndoSystem.act_untouched inv other).recycle zid)
  | true =>
    cases event with
    | recycle =>
      have moves := recycle_invariant inv
      exact Or.inr ⟨moves.xacts, (moves.zones zid).slots⟩
    | finishPass retry =>
      left
      rw [UndoSystem.act, UndoSystem.finishPass_zones]
    | restartRecycler => exact Or.inl rfl
    | _ => cases other

/-- The transaction of the slot is in progress, or aborted and still to be rolled back. -/
def Unfinished (xacts : Xacts) (slot : TransactionSlot) : Prop :=
  xacts.Active slot.xactId ∨ (xacts.status slot.xactId = .aborted ∧ slot.needRollback = true)

theorem Settled.not_unfinished {xacts : Xacts} {slot : TransactionSlot}
    (settled : Settled xacts slot) : ¬ Unfinished xacts slot := by
  rintro (active | ⟨aborted, needed⟩)
  · exact settled.not_active active
  · rcases settled with committed | ⟨-, finished⟩
    · rw [aborted] at committed
      cases committed
    · simp [TransactionSlot.needRollback, finished] at needed

theorem ZonePointers.lt_allocNo {zone : UndoZone} {context : UndoContext}
    (pointers : ZonePointers zone context) {number : Nat} :
    slotPtr number < zone.allocateTSlotPtr ↔ number < zone.allocNo := by
  rw [pointers.allocate, slotPtr_lt]

theorem ZonePointers.lt_recycleNo {zone : UndoZone} {context : UndoContext}
    (pointers : ZonePointers zone context) {number : Nat} :
    slotPtr number < zone.recycleTSlotPtr ↔ number < zone.recycleNo := by
  rw [pointers.recycle, slotPtr_lt]

/-- No step recycles the slot of an unfinished transaction, everything below `globalFrozenXid` is
committed or rolled back, nothing below `globalRecycleXid` is left, and both xids only grow. -/
theorem undoRecycler_safe (zoneCount : Nat) (events : List UndoEvent)
    (promised : Lib.Along (UndoSystem.step zoneCount) UndoSystem.Promised {} events) :
    let system := Lib.run (UndoSystem.step zoneCount) {} events
    (∀ zid number, slotPtr number < (system.zones zid).allocateTSlotPtr →
      ((system.zones zid).slots (slotPtr number)).xactId < system.globals.globalFrozenXid →
      Settled system.xacts ((system.zones zid).slots (slotPtr number))) ∧
    (∀ zid number, (system.zones zid).recycleTSlotPtr ≤ slotPtr number →
      slotPtr number < (system.zones zid).allocateTSlotPtr →
      system.globals.globalRecycleXid ≤ ((system.zones zid).slots (slotPtr number)).xactId) ∧
    ∀ event, system.Promised event → (∀ zid number, (system.zones zid).recycleTSlotPtr ≤ slotPtr number →
        slotPtr number < ((system.step zoneCount event).zones zid).recycleTSlotPtr →
        ¬ Unfinished system.xacts ((system.zones zid).slots (slotPtr number))) ∧
      system.globals.globalFrozenXid ≤ (system.step zoneCount event).globals.globalFrozenXid ∧
      system.globals.globalRecycleXid ≤ (system.step zoneCount event).globals.globalRecycleXid := by
  intro system
  have inv : SystemInvariant zoneCount system := UndoSystem.run_invariant promised
  refine ⟨?_, ?_, ?_⟩
  · intro zid number allocated small
    exact inv.globals.frozen zid number ((inv.zones zid).pointers.lt_allocNo.mp allocated) small
  · intro zid number live allocated
    have pointers := (inv.zones zid).pointers
    refine inv.globals.recycle zid number ?_ (pointers.lt_allocNo.mp allocated)
    exact Nat.not_lt.mp (pointers.lt_recycleNo.not.mp (Nat.not_lt.mpr live))
  · intro event allowed
    refine ⟨?_, UndoSystem.step_globals inv event⟩
    intro zid number live recycled
    have after := UndoSystem.step_invariant inv allowed
    have settled := (after.zones zid).xids.recycled number
      ((after.zones zid).pointers.lt_recycleNo.mp recycled)
    rcases UndoSystem.step_recycleTSlotPtr inv event zid with unmoved | ⟨sameXacts, sameSlots⟩
    · exact absurd (unmoved ▸ recycled) (Nat.not_lt.mpr live)
    · rw [UndoZone.slot, sameXacts, sameSlots] at settled
      exact settled.not_unfinished

/-- One transaction writes undo, commits, and has its slot recycled. -/
def committedThenRecycled : List UndoEvent :=
  [.beginTransaction, .prepareUndoRecord 0 ⟨3, [40], 1000000, false, false⟩, .undoMetaStep 0,
    .undoMetaStep 0, .undoMetaStep 0, .undoMetaStep 0, .commitTransaction 3, .startRound 4 4 0,
    .recycle, .recycle, .recycle, .recycle, .recycle, .recycle, .recycle, .recycle, .recycle,
    .recycle, .finishPass none]

theorem committedThenRecycled_promised :
    Lib.Along (UndoSystem.step 1) UndoSystem.Promised {} committedThenRecycled := by
  refine ⟨trivial, trivial, ?_, ?_, ?_, ?_, trivial, ?_, trivial, trivial, trivial, trivial, trivial,
    trivial, trivial, trivial, trivial, trivial, trivial, trivial⟩
  · intro pending phase
    cases phase
  · intro pending phase _ pointer
    cases phase
    exact Nat.succ_pos 2
  · intro pending phase
    cases phase
  · intro pending phase
    cases phase
  · refine ⟨le_rfl, le_rfl, ?_⟩
    rintro xid ⟨normal, begun, running⟩
    have only : xid = 3 := by
      change 3 ≤ xid at normal
      change xid < 4 at begun
      omega
    subst only
    cases running

theorem undoRecycler_safe_committedThenRecycled :
    ((Lib.run (UndoSystem.step 1) {} committedThenRecycled).zones 0).recycleTSlotPtr = slotPtr 1 ∧
      (Lib.run (UndoSystem.step 1) {} committedThenRecycled).globals = ⟨4, 3⟩ ∧
      Settled (Lib.run (UndoSystem.step 1) {} committedThenRecycled).xacts
        (((Lib.run (UndoSystem.step 1) {} committedThenRecycled).zones 0).slots (slotPtr 0)) := by
  refine ⟨by decide +kernel, by decide +kernel, ?_⟩
  exact (undoRecycler_safe 1 committedThenRecycled committedThenRecycled_promised).1 0 0
    (by decide +kernel) (by decide +kernel)

/-- The slot was handed out and its undo is still kept. -/
def UndoZone.NotRecycled (zone : UndoZone) (number : Nat) : Prop :=
  zone.recycleTSlotPtr ≤ slotPtr number ∧ slotPtr number < zone.allocateTSlotPtr

structure ZoneLayout (zone : UndoZone) (context : UndoContext) : Prop where
  discard_le : zone.discardURecPtr ≤ zone.forceDiscardURecPtr
  forceDiscard_le : zone.forceDiscardURecPtr ≤ zone.insertURecPtr
  insert_le : zone.insertURecPtr ≤ zone.undoSpace.tail ∨
    (zone.insertURecPtr = blockHeaderSize ∧ zone.undoSpace.tail = 0)
  undoHead_le : zone.undoSpace.head ≤ zone.forceDiscardURecPtr / undoLogSegmentSize * undoLogSegmentSize
  recycle_le : zone.recycleTSlotPtr ≤ zone.allocateTSlotPtr
  allocate_le : zone.allocateTSlotPtr ≤ zone.slotSpace.tail ∨
    zone.allocateTSlotPtr = zone.slotSpace.tail + blockHeaderSize
  /-- Only the newest slot can be without a range, just before `UpdateTransactionSlot`. -/
  ranged : ∀ number, zone.NotRecycled number → zone.startOf number < zone.stopOf number ∨
    (∃ pending, context.phase = .slotAllocated pending) ∧
      slotPtr (number + 1) = zone.allocateTSlotPtr ∧ zone.startOf number = 0
  consecutive : ∀ number, zone.NotRecycled number → zone.NotRecycled (number + 1) →
    zone.startOf (number + 1) ≠ 0 → zone.startOf (number + 1) = zone.stopOf number
  closedEnd_le : zone.closedEnd context ≤ zone.insertURecPtr
  covered : ∀ point, (zone.forceDiscardURecPtr ≤ point ∧ point < zone.closedEnd context) ↔
    ∃ number, zone.NotRecycled number ∧ zone.startOf number ≠ 0 ∧ zone.startOf number ≤ point ∧
      point < zone.stopOf number

namespace ZonePointers

variable {zone : UndoZone} {context : UndoContext}

theorem notRecycled_iff (pointers : ZonePointers zone context) {number : Nat} :
    zone.NotRecycled number ↔ zone.recycleNo ≤ number ∧ number < zone.allocNo := by
  unfold UndoZone.NotRecycled
  rw [pointers.lt_allocNo, ← Nat.not_lt, pointers.lt_recycleNo, Nat.not_lt]

/-- A slot has its range, or it is the newest one and waits for it. -/
theorem lt_closedNo_or (context : UndoContext) {number : Nat} (allocated : number < zone.allocNo) :
    number < zone.closedNo context ∨ (∃ pending, context.phase = .slotAllocated pending) ∧
      number + 1 = zone.allocNo ∧ zone.startOf number = 0 := by
  unfold UndoZone.closedNo
  split
  · rename_i pending phase
    split
    · rename_i unset
      rcases Nat.lt_or_ge number (zone.allocNo - 1) with before | newest
      · exact Or.inl before
      · obtain rfl : number = zone.allocNo - 1 := by omega
        exact Or.inr ⟨⟨pending, phase⟩, by omega, unset⟩
    · exact Or.inl allocated
  · exact Or.inl allocated

theorem closedNo_le : zone.closedNo context ≤ zone.allocNo := by
  unfold UndoZone.closedNo
  split
  · split
    · exact Nat.sub_le _ _
    · exact le_rfl
  · exact le_rfl

variable (pointers : ZonePointers zone context)
include pointers

theorem covered_iff (point : Nat) :
    (zone.forceDiscardURecPtr ≤ point ∧ point < zone.closedEnd context) ↔
      ∃ number, zone.NotRecycled number ∧ zone.startOf number ≠ 0 ∧ zone.startOf number ≤ point ∧
        point < zone.stopOf number := by
  rw [pointers.tiles.mem_iff]
  constructor
  · rintro ⟨number, live, closed, inside⟩
    refine ⟨number, pointers.notRecycled_iff.mpr ⟨live, closed.trans_le closedNo_le⟩, ?_, inside⟩
    exact pointers.startOf_ne_zero live closed
  · rintro ⟨number, notRecycled, set, inside⟩
    obtain ⟨live, allocated⟩ := pointers.notRecycled_iff.mp notRecycled
    rcases lt_closedNo_or context allocated with closed | ⟨-, -, unset⟩
    · exact ⟨number, live, closed, inside⟩
    · exact absurd unset set

/-- The head stands on a segment, so it is at most the start of any segment it has not passed. -/
theorem head_le_segment : zone.undoSpace.head ≤
    zone.forceDiscardURecPtr / undoLogSegmentSize * undoLogSegmentSize := by
  have aligned : zone.undoSpace.head / undoLogSegmentSize * undoLogSegmentSize = zone.undoSpace.head :=
    Nat.div_mul_cancel (Nat.dvd_of_mod_eq_zero pointers.undoHead_segment)
  rw [← aligned]
  exact Nat.mul_le_mul_right _ (Nat.div_le_div_right pointers.undoHead_le)

theorem layout : ZoneLayout zone context where
  discard_le := pointers.discard_le
  forceDiscard_le := pointers.tiles.low_le_high.trans pointers.closedEnd_le
  insert_le := pointers.undoTail
  undoHead_le := pointers.head_le_segment
  recycle_le := by
    rw [pointers.allocate, pointers.recycle, ← Nat.not_lt, slotPtr_lt, Nat.not_lt]
    exact pointers.recycle_le
  allocate_le := pointers.slotTail
  ranged := by
    intro number notRecycled
    obtain ⟨live, allocated⟩ := pointers.notRecycled_iff.mp notRecycled
    rcases lt_closedNo_or context allocated with closed | ⟨phase, newest, unset⟩
    · exact Or.inl (pointers.tiles.proper number live closed)
    · exact Or.inr ⟨phase, by rw [newest, ← pointers.allocate], unset⟩
  consecutive := by
    intro number notRecycled next set
    obtain ⟨live, -⟩ := pointers.notRecycled_iff.mp notRecycled
    obtain ⟨-, allocated⟩ := pointers.notRecycled_iff.mp next
    rcases lt_closedNo_or context allocated with closed | ⟨-, -, unset⟩
    · exact pointers.tiles.joined number live closed
    · exact absurd unset set
  closedEnd_le := pointers.closedEnd_le
  covered := pointers.covered_iff

end ZonePointers

/-- In every run the pointers keep their order and the undo ranges of the slots that are not
recycled follow each other up to the insert pointer, or up to the records on their way in. -/
theorem zoneLayout_reachable (zoneCount : Nat) (events : List UndoEvent)
    (promised : Lib.Along (UndoSystem.step zoneCount) UndoSystem.Promised {} events) (zid : Nat) :
    let system := Lib.run (UndoSystem.step zoneCount) {} events
    ZoneLayout (system.zones zid) (system.contexts zid) := by
  intro system
  have inv : SystemInvariant zoneCount system := UndoSystem.run_invariant promised
  exact (inv.zones zid).pointers.layout

theorem zoneLayout_committedThenRecycled :
    ((Lib.run (UndoSystem.step 1) {} committedThenRecycled).zones 0).forceDiscardURecPtr = 64 ∧
      ZoneLayout ((Lib.run (UndoSystem.step 1) {} committedThenRecycled).zones 0)
        ((Lib.run (UndoSystem.step 1) {} committedThenRecycled).contexts 0) :=
  ⟨by decide +kernel,
    zoneLayout_reachable 1 committedThenRecycled committedThenRecycled_promised 0⟩

/-- A new zone's next record and next slot lie behind the tails of its empty spaces, and records
whose meta data is prepared belong to no slot yet. -/
theorem zoneLayout_lazy : ((Lib.run (UndoSystem.step 1) {} []).zones 0).undoSpace.tail <
        ((Lib.run (UndoSystem.step 1) {} []).zones 0).insertURecPtr ∧
      ((Lib.run (UndoSystem.step 1) {} []).zones 0).slotSpace.tail <
        ((Lib.run (UndoSystem.step 1) {} []).zones 0).allocateTSlotPtr ∧
      ∃ zone, zone = (Lib.run (UndoSystem.step 1) {} (committedThenRecycled.take 3)).zones 0 ∧
        zone.forceDiscardURecPtr < zone.insertURecPtr ∧
        zone.recycleTSlotPtr = zone.allocateTSlotPtr := by
  refine ⟨by decide +kernel, by decide +kernel, _, rfl, by decide +kernel, by decide +kernel⟩

end OpenGauss.Undo
