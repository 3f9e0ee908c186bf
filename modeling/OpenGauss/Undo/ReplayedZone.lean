import OpenGauss.Undo.ReplayRuns

namespace OpenGauss.Undo

section Unforced

variable {zoneCount : Nat} {system : UndoSystem}

theorem RecycleXids.verdict_unforced {xids : RecycleXids}
    (unforced : xids.forceRecycleXid < firstNormalTransactionId) (xacts : Xacts)
    (globals : UndoGlobals) (slot : TransactionSlot) :
    xids.verdict xacts globals slot ≠ .forceRecycle := by
  have absent : ¬ (firstNormalTransactionId ≤ xids.forceRecycleXid ∧
      slot.xactId < xids.forceRecycleXid) := fun both => absurd both.1 (Nat.not_le.mpr unforced)
  simp only [RecycleXids.verdict, if_pos absent]
  repeat' split
  all_goals simp

theorem RecycleScan.step_unforced {xids : RecycleXids}
    (unforced : xids.forceRecycleXid < firstNormalTransactionId) {scan : RecycleScan}
    (quiet : scan.forceRecycle = false ∧
      (scan.undoRecycled = true → scan.oldestEndUndoPtr = scan.endUndoPtr))
    {xacts : Xacts} {globals : UndoGlobals} {locked : Bool} {zone zone' : UndoZone}
    {scan' : RecycleScan}
    (result : scan.step xids xacts globals locked zone = .goOn zone' scan') :
    scan'.forceRecycle = false ∧
      (scan'.undoRecycled = true → scan'.oldestEndUndoPtr = scan'.endUndoPtr) := by
  unfold RecycleScan.step at result
  split at result
  · split at result
    · cases result
      exact ⟨quiet.1, fun absent => nomatch absent⟩
    · cases result
  · unfold RecycleScan.inspectSlot at result
    split at result
    · split at result
      · cases result
      · cases result
        exact quiet
      · cases result
        exact ⟨by simp [RecycleScan.take, quiet.1], fun _ => by simp [RecycleScan.take, quiet.1]⟩
      · rename_i forced
        exact absurd forced (RecycleXids.verdict_unforced unforced _ _ _)
    · cases result
      exact quiet
  · split at result
    · split at result
      · cases result
        exact quiet
      · split at result
        · cases result
          exact quiet
        · cases result
    · cases result
  · cases result
    exact quiet

theorem UndoSystem.onZone_recycler {action : UndoSystem → Nat → UndoSystem} {zid : Nat}
    (same : (action system zid).recycler = system.recycler) :
    (system.onZone zoneCount zid action).recycler = system.recycler := by
  unfold UndoSystem.onZone
  split
  · exact same
  · rfl

theorem UndoSystem.recycle_unforced (quiet : system.recycler.Unforced) :
    (system.recycle zoneCount).recycler.Unforced := by
  unfold UndoSystem.recycle
  cases recycler : system.recycler with
  | idle =>
    rw [recycler] at quiet
    simpa [recycler] using quiet
  | zoneLoop round idx =>
    rw [recycler] at quiet
    dsimp only
    split
    · simp only [UndoSystem.enterZone]
      split <;> exact quiet
    · rwa [recycler]
  | advancing round idx scan =>
    rw [recycler] at quiet
    dsimp only
    split <;> exact quiet
  | entering round idx frozenXid =>
    rw [recycler] at quiet
    exact ⟨quiet, rfl, by rintro ⟨⟩⟩
  | recycling round idx frozenXid scan =>
    rw [recycler] at quiet
    dsimp only
    split
    · exact quiet
    · rename_i zone scan' result
      exact ⟨quiet.1, RecycleScan.step_unforced quiet.1 quiet.2 result⟩
    · exact quiet.1

theorem UndoSystem.act_unforced {event : UndoEvent} (calm : event.forces = false)
    (quiet : system.recycler.Unforced) : (system.act zoneCount event).recycler.Unforced := by
  cases event with
  | beginTransaction => exact quiet
  | commitTransaction xid | abortTransaction xid =>
    simp only [act, endTransaction]
    split <;> exact quiet
  | updateRollbackFinish zid pointer =>
    rw [act, onZone_recycler]
    · exact quiet
    · simp only [updateRollbackFinish]
      repeat' split
      all_goals rfl
  | prepareUndoRecord zid request =>
    rw [act, onZone_recycler]
    · exact quiet
    · simp only [prepareUndoRecord]
      split <;> rfl
  | undoMetaStep zid =>
    rw [act, onZone_recycler]
    · exact quiet
    · unfold undoMetaStep
      split <;> rfl
  | abandonUndoRecord zid =>
    rw [act, onZone_recycler]
    · exact quiet
    · unfold abandonUndoRecord
      split <;> rfl
  | resetUndoActionsInfo zid =>
    rw [act, onZone_recycler]
    · exact quiet
    · unfold resetUndoActionsInfo
      split <;> rfl
  | attachZone zid =>
    rw [act, onZone_recycler]
    · exact quiet
    · unfold attachZone
      split <;> rfl
  | startRound oldestXmin recycleXmin forceRecycleXid =>
    simp only [UndoEvent.forces, decide_eq_false_iff_not, Nat.not_le] at calm
    simp only [act, startRound]
    split
    · split
      · exact quiet
      · exact calm
    · exact quiet
  | recycle => exact recycle_unforced quiet
  | finishPass retry =>
    simp only [act, finishPass]
    split
    · rename_i round idx recycler
      rw [recycler] at quiet
      split
      · rwa [recycler]
      · split
        · simp only [UndoEvent.forces, decide_eq_false_iff_not, Nat.not_le] at calm
          exact calm
        · trivial
    · exact quiet
  | restartRecycler => trivial

end Unforced

section Runs

variable {unforced : Prop} {zoneCount zid : Nat} {state : LoggedSystem}

/-- The promises of the run, and what it takes for the discard pointers to stay together. -/
def LoggedSystem.Allowed (unforced : Prop) (zid : Nat) (state : LoggedSystem) (event : UndoEvent) : Prop :=
  state.Promised zid event ∧ (unforced → event.forces = false)

theorem LoggedSystem.step_invariant (inv : state.Invariant unforced zoneCount zid) {event : UndoEvent}
    (allowed : state.Allowed unforced zid event) :
    (state.step zoneCount zid event).Invariant unforced zoneCount zid := by
  obtain ⟨⟨promised, single⟩, unforcedEvent⟩ := allowed
  obtain ⟨replica, replayed, upTo, mirrors⟩ := inv.replays
  have follows := UndoSystem.act_follows inv.system inv.recycler mirrors inv.backend promised single
  have stepped := inv.system.step_eq event
  have system := UndoSystem.step_invariant inv.system promised
  rw [LoggedSystem.step, inv.system.calm, if_neg Bool.false_ne_true]
  refine ⟨system, ?_, ?_, ?_⟩
  · intro quiet
    rw [stepped]
    exact UndoSystem.act_unforced (unforcedEvent quiet) (inv.recycler quiet)
  · rw [stepped]
    exact follows.backend
  · obtain ⟨room, mirrors'⟩ := follows.agrees
    obtain ⟨later, replayed', zone, upTo'⟩ := ReplicaZone.replay_applied upTo room
    refine ⟨later, ?_, ?_, ?_⟩
    · rw [ReplicaZone.replay_append, replayed, Option.bind_some, Nat.zero_add, replayed']
    · rwa [List.length_append]
    · rw [stepped, zone]
      exact mirrors'

theorem LoggedSystem.run_invariant {events : List UndoEvent}
    (allowed : Lib.Along (LoggedSystem.step zoneCount zid) (LoggedSystem.Allowed unforced zid) {} events) :
    (Lib.run (LoggedSystem.step zoneCount zid) {} events).Invariant unforced zoneCount zid :=
  Lib.run_invariant_along (LoggedSystem.Invariant unforced zoneCount zid)
    (fun _ _ allowed inv => LoggedSystem.step_invariant inv allowed) allowed
    (LoggedSystem.Invariant.initial unforced zoneCount zid)

theorem LoggedSystem.allowed_of_promised {events : List UndoEvent}
    (promised : Lib.Along (LoggedSystem.step zoneCount zid) (LoggedSystem.Promised zid) {} events) :
    Lib.Along (LoggedSystem.step zoneCount zid)
      (LoggedSystem.Allowed (∀ event ∈ events, event.forces = false) zid) {} events := by
  rw [Lib.along_iff] at promised ⊢
  rintro before event after rfl
  refine ⟨promised before event after rfl, ?_⟩
  intro unforced
  exact unforced event (by simp)

end Runs

/-- The zone that replay leaves, against the zone of the primary: the log has one discard pointer,
and slots in front of the head have no page any more. -/
structure Replayed (primary replica : UndoZone) : Prop where
  insert : replica.insertURecPtr = primary.insertURecPtr
  forceDiscard : replica.forceDiscardURecPtr = primary.forceDiscardURecPtr
  discard : replica.discardURecPtr = primary.forceDiscardURecPtr
  allocate : replica.allocateTSlotPtr = primary.allocateTSlotPtr
  recycle : replica.recycleTSlotPtr = primary.recycleTSlotPtr
  recycleXid : replica.recycleXid = primary.recycleXid
  undoSpace : replica.undoSpace = primary.undoSpace
  slotSpace : replica.slotSpace = primary.slotSpace
  slots : ∀ pointer, primary.slotSpace.head < pointer → replica.slots pointer = primary.slots pointer

/-- A replica knows nothing of undo that is gone by force only. -/
def UndoRecordState.onReplica : UndoRecordState → UndoRecordState
  | .forceDiscard => .discard
  | state => state

section Replayed

variable {unforced : Prop} {primary replica : UndoZone} {context : UndoContext} {translot : Bool}

theorem Mirrors.replayed (mirrors : Mirrors unforced primary context translot replica)
    (free : context.phase.locked = false) : Replayed primary replica where
  insert := by rw [mirrors.insert, UndoPhase.owedInsert_free free]
  forceDiscard := mirrors.forceDiscard.symm
  discard := mirrors.discard.trans mirrors.forceDiscard.symm
  allocate := by rw [mirrors.allocate, UndoPhase.owedAllocate_free free]
  recycle := mirrors.recycle.symm
  recycleXid := mirrors.recycleXid.symm
  undoSpace := mirrors.undoSpace.symm
  slotSpace := mirrors.slotSpace.symm
  slots := by
    intro pointer live
    rw [mirrors.slots pointer live, UndoPhase.owedSlot_free free, ite_self]

theorem Replayed.checkUndoRecordValid (replayed : Replayed primary replica) (recycleXmin : Nat)
    (checkForceRecycle : Bool) (offset : Nat) :
    replica.checkUndoRecordValid recycleXmin checkForceRecycle offset =
      (primary.checkUndoRecordValid recycleXmin checkForceRecycle offset).onReplica := by
  unfold UndoZone.checkUndoRecordValid
  rw [replayed.insert, replayed.forceDiscard, replayed.discard]
  split
  · rfl
  split
  · rfl
  · rename_i discarded
    rw [if_neg (fun both => discarded both.1)]
    repeat' split
    all_goals rfl

/-- Without a gap between the two pointers nothing is gone by force only. -/
theorem UndoZone.checkUndoRecordValid_onReplica
    (together : primary.discardURecPtr = primary.forceDiscardURecPtr) (recycleXmin : Nat)
    (checkForceRecycle : Bool) (offset : Nat) :
    (primary.checkUndoRecordValid recycleXmin checkForceRecycle offset).onReplica =
      primary.checkUndoRecordValid recycleXmin checkForceRecycle offset := by
  unfold UndoZone.checkUndoRecordValid
  rw [together]
  split
  · rfl
  split
  · rfl
  · rename_i discarded
    rw [if_neg (fun both => discarded both.1)]
    rfl

end Replayed

/-- Whenever no operation is in its critical section, replay of the log written so far succeeds and
leaves the zone of the primary with its discard pointer at the forced one; in a run without forced
recycling the two pointers are the same. -/
theorem undoZone_replay (zoneCount zid : Nat) (events : List UndoEvent)
    (promised : Lib.Along (LoggedSystem.step zoneCount zid) (LoggedSystem.Promised zid) {} events) :
    let state := Lib.run (LoggedSystem.step zoneCount zid) {} events
    let primary := state.system.zones zid
    (state.system.contexts zid).phase.locked = false →
    ∃ replica, ReplicaZone.replay {} 0 state.xlog = some replica ∧ Replayed primary replica.zone ∧
      (∀ recycleXmin checkForceRecycle offset,
        replica.zone.checkUndoRecordValid recycleXmin checkForceRecycle offset =
          (primary.checkUndoRecordValid recycleXmin checkForceRecycle offset).onReplica) ∧
      ((∀ event ∈ events, event.forces = false) → replica.zone.discardURecPtr = primary.discardURecPtr ∧
        ∀ recycleXmin checkForceRecycle offset,
          replica.zone.checkUndoRecordValid recycleXmin checkForceRecycle offset =
            primary.checkUndoRecordValid recycleXmin checkForceRecycle offset) := by
  intro state primary free
  have inv := LoggedSystem.run_invariant (LoggedSystem.allowed_of_promised promised)
  obtain ⟨replica, replay, -, mirrors⟩ := inv.replays
  have replayed := mirrors.replayed free
  refine ⟨replica, replay, replayed, replayed.checkUndoRecordValid, ?_⟩
  intro unforced
  have together : primary.discardURecPtr = primary.forceDiscardURecPtr := mirrors.together unforced
  refine ⟨replayed.discard.trans together.symm, ?_⟩
  intro recycleXmin checkForceRecycle offset
  rw [replayed.checkUndoRecordValid, UndoZone.checkUndoRecordValid_onReplica together]

/-- One transaction writes undo, commits, and has its slot recycled by force. -/
def committedThenForced : List UndoEvent :=
  [.beginTransaction, .prepareUndoRecord 0 ⟨3, [40], 1000000, false, false⟩, .undoMetaStep 0,
    .undoMetaStep 0, .undoMetaStep 0, .undoMetaStep 0, .commitTransaction 3, .startRound 3 3 4,
    .recycle, .recycle, .recycle, .recycle, .recycle, .recycle, .recycle, .recycle]

theorem committedThenForced_promised :
    Lib.Along (LoggedSystem.step 1 0) (LoggedSystem.Promised 0) {} committedThenForced := by
  have other : ∀ {state : LoggedSystem} {event : UndoEvent}, state.system.Promised event →
      (∀ request, event ≠ .prepareUndoRecord 0 request) → state.Promised 0 event :=
    fun promised different => ⟨promised, fun request same => absurd same (different request)⟩
  refine ⟨other trivial (by simp), ⟨trivial, ?_⟩, other ?_ (by simp), other ?_ (by simp),
    other ?_ (by simp), other ?_ (by simp), other trivial (by simp), other ?_ (by simp),
    other trivial (by simp), other trivial (by simp), other trivial (by simp), other trivial (by simp),
    other trivial (by simp), other trivial (by simp), other trivial (by simp), other trivial (by simp),
    trivial⟩
  · intro request same
    exact Or.inl rfl
  · intro pending phase
    cases phase
  · intro pending phase _ pointer
    cases phase
    exact Nat.succ_pos 2
  · intro pending phase
    cases phase
  · intro pending phase
    cases phase
  · exact ⟨le_rfl, Nat.le_succ 3, fun xid active => active.1⟩

theorem undoZone_replay_committedThenForced : ∃ replica, ReplicaZone.replay {} 0
          (Lib.run (LoggedSystem.step 1 0) {} committedThenForced).xlog = some replica ∧
        Replayed ((Lib.run (LoggedSystem.step 1 0) {} committedThenForced).system.zones 0) replica.zone := by
  obtain ⟨replica, replay, replayed, -⟩ :=
    undoZone_replay 1 0 committedThenForced committedThenForced_promised (by decide +kernel)
  exact ⟨replica, replay, replayed⟩

/-- The primary still tells undo that is gone by force from undo that nobody needs; the replica does
not. -/
theorem undoZone_replay_not_equal : ¬ ∀ (zoneCount zid : Nat) (events : List UndoEvent),
      Lib.Along (LoggedSystem.step zoneCount zid) (LoggedSystem.Promised zid) {} events →
      let state := Lib.run (LoggedSystem.step zoneCount zid) {} events
      (state.system.contexts zid).phase.locked = false →
      ∃ replica, ReplicaZone.replay {} 0 state.xlog = some replica ∧
        (replica.zone.discardURecPtr = (state.system.zones zid).discardURecPtr ∨
          ∀ offset, replica.zone.checkUndoRecordValid 3 true offset =
            (state.system.zones zid).checkUndoRecordValid 3 true offset) := by
  intro equal
  obtain ⟨replica, replay, same⟩ :=
    equal 1 0 committedThenForced committedThenForced_promised (by decide +kernel)
  have discard : (ReplicaZone.replay {} 0 (Lib.run (LoggedSystem.step 1 0) {} committedThenForced).xlog).map
      (fun replica => replica.zone.discardURecPtr) = some 64 := by decide +kernel
  have checked : (ReplicaZone.replay {} 0 (Lib.run (LoggedSystem.step 1 0) {} committedThenForced).xlog).map
      (fun replica => replica.zone.checkUndoRecordValid 3 true 24) = some .discard := by decide +kernel
  rw [replay, Option.map_some, Option.some.injEq] at discard checked
  rcases same with same | same
  · rw [discard] at same
    exact absurd same (by decide +kernel)
  · have := same 24
    rw [checked] at this
    exact absurd this (by decide +kernel)

end OpenGauss.Undo
