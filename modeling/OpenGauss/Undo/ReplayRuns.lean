import OpenGauss.Undo.ReplayAgreement

namespace OpenGauss.Undo

open Function (update_of_ne update_self)

section Recycler

variable {primary replica : UndoZone} {context : UndoContext} {translot : Bool} {unforced : Prop}

theorem FrozenScan.step_zone (scan : FrozenScan) (xacts : Xacts) (globals : UndoGlobals)
    (oldestXmin : Nat) (zone : UndoZone) {zone' : UndoZone} {scan' : FrozenScan}
    (result : scan.step xacts globals oldestXmin zone = .goOn zone' scan' ∨
      scan.step xacts globals oldestXmin zone = .finished zone' scan') :
    ∃ frozenXid, zone' = { zone with frozenXid } := by
  simp only [FrozenScan.step] at result
  repeat' split at result
  all_goals simp only [ScanStep.goOn.injEq, ScanStep.finished.injEq, reduceCtorEq, or_false, false_or]
    at result
  all_goals exact ⟨_, result.1.symm⟩

section

variable (mirrors : Mirrors unforced primary context translot replica)

include mirrors
variable (stop : Nat) (scan : RecycleScan)

theorem releaseSpace_agrees :
    Agrees unforced (primary.releaseSpaceXlog stop) (primary.releaseSpace stop) context translot replica := by
  unfold UndoZone.releaseSpaceXlog UndoZone.releaseSpace
  split
  · exact ⟨⟨trivial, trivial⟩, mirrors.unlinkUndo _⟩
  · exact mirrors.agrees

theorem releaseSlotSpace_agrees :
    Agrees unforced (primary.releaseSlotSpaceXlog stop) (primary.releaseSlotSpace stop) context translot
      replica := by
  unfold UndoZone.releaseSlotSpaceXlog UndoZone.releaseSlotSpace
  split
  · rename_i further
    refine ⟨⟨trivial, trivial⟩, mirrors.unlinkSlot ?_⟩
    simp only [undoMetaSegmentSize] at *
    omega
  · exact mirrors.agrees

/-- The one record of a batch carries the end of the recycled undo, which replay takes for both
discard pointers. -/
theorem discardBatch_mirrors (nonzero : scan.endUndoPtr ≠ 0)
    (together : unforced → scan.oldestEndUndoPtr = scan.endUndoPtr) :
    Mirrors unforced (primary.discardBatch scan) context translot ((UndoXlog.discard
        { startSlot := scan.start
          endSlot := scan.recyclePtr
          endUndoPtr := scan.endUndoPtr
          recycledXid := scan.recycleXid }).applied replica) :=
  { mirrors with
    discard := rfl
    together := by
      intro quiet
      simp only [UndoZone.discardBatch, together quiet, if_neg nonzero]
    forceDiscard := rfl
    recycle := rfl
    recycleXid := rfl }

theorem RecycleScan.step_agrees (xids : RecycleXids) (xacts : Xacts) (globals : UndoGlobals)
    (together : unforced → scan.undoRecycled = true → scan.oldestEndUndoPtr = scan.endUndoPtr)
    {zone' : UndoZone} {scan' : RecycleScan}
    (result : scan.step xids xacts globals context.phase.locked primary = .goOn zone' scan' ∨
      scan.step xids xacts globals context.phase.locked primary = .finished zone' scan') :
    Agrees unforced (scan.xlog context.phase.locked primary) zone' context translot replica := by
  unfold RecycleScan.step at result
  unfold RecycleScan.xlog
  cases pc : scan.pc with
  | nextPage =>
    simp only [pc] at result
    have same : zone' = primary := by
      split at result <;> simp_all
    rw [same]
    exact mirrors.agrees
  | inspect =>
    simp only [pc, RecycleScan.inspectSlot] at result
    have same : zone' = primary := by
      repeat' split at result
      all_goals simp_all
    rw [same]
    exact mirrors.agrees
  | pageDone =>
    simp only [pc] at result ⊢
    split at result
    · rename_i recycled
      split at result
      · rename_i locked
        simp only [ScanStep.goOn.injEq, reduceCtorEq, or_false] at result
        rw [← result.1, if_neg (by simp [locked])]
        exact mirrors.agrees
      · rename_i free
        split at result
        · rename_i checked
          simp only [ScanStep.goOn.injEq, reduceCtorEq, or_false] at result
          rw [← result.1, if_pos ⟨recycled, by simpa using free, checked⟩]
          refine ⟨⟨trivial, trivial⟩, discardBatch_mirrors mirrors scan ?_ fun quiet =>
            together quiet recycled⟩
          simp only [UndoZone.checkRecycle, decide_eq_true_eq] at checked
          omega
        · simp at result
    · rename_i kept
      simp only [ScanStep.finished.injEq, reduceCtorEq, false_or] at result
      rw [← result.1, if_neg (fun both => kept both.1)]
      exact mirrors.agrees
  | release =>
    simp only [pc, ScanStep.goOn.injEq, reduceCtorEq, or_false] at result
    rw [← result.1]
    refine Agrees.append (releaseSpace_agrees mirrors scan.endUndoPtr) fun between same => ?_
    exact releaseSlotSpace_agrees same scan.recyclePtr

end

end Recycler

section Backend

variable {xacts : Xacts} {zone : UndoZone} {context : UndoContext}

theorem BackendLog.initial : BackendLog {} where
  slot := fun current => absurd rfl current
  single := fun _ flying => by cases flying
  updated := fun _ phase => by cases phase

theorem prepareUndoRecord_backendLog (inv : ZoneInvariant xacts zone context)
    (backend : BackendLog context) (ready : context.phase = .ready) {request : UndoRequest}
    (single : context.prevXid = 0 ∨ context.prevXid = request.xid) :
    BackendLog (prepareUndoRecord zone context request).2 := by
  have free : ∀ context' : UndoContext, context'.phase = .ready → context'.prevXid = context.prevXid →
      context'.slot = context.slot → context'.slotPtr = context.slotPtr → BackendLog context' := by
    intro context' ready' prevXid slot slotPtr
    refine ⟨?_, ?_, ?_⟩
    · rw [prevXid, slot, slotPtr]
      exact backend.slot
    · simp [ready', UndoPhase.xid?]
    · simp [ready']
  simp only [prepareUndoRecord, allocateUndoSpace]
  generalize (if request.xid ≠ context.prevXid then 0 else context.transUndoSize) = before
  split
  · exact backend
  split
  · exact free _ ready rfl rfl rfl
  split
  · exact free _ ready rfl rfl rfl
  split
  · rename_i fresh
    split
    · exact free _ ready rfl rfl rfl
    · refine ⟨?_, ?_, ?_⟩
      · -- a slot in use is kept, so there was none
        intro current
        rcases fresh with other | invalid
        · exact absurd (single.resolve_left current).symm other
        · exact absurd (inv.backend.buffer current) (by simp [invalid])
      · intro xid flying
        cases flying
        exact single
      · simp
  · refine ⟨backend.slot, ?_, by simp⟩
    intro xid flying
    cases flying
    exact single

theorem undoMetaStep_backendLog (inv : ZoneInvariant xacts zone context)
    (backend : BackendLog context) {result : UndoZone × UndoContext}
    (done : undoMetaStep zone context = some result) : BackendLog result.2 := by
  unfold undoMetaStep at done
  cases phase : context.phase with
  | ready =>
    simp only [phase, Option.some.injEq] at done
    subst done
    exact backend
  | allocated pending =>
    simp only [phase, Option.some.injEq] at done
    subst done
    exact ⟨backend.slot, fun xid flying => backend.single xid (by rw [phase]; exact flying), by simp⟩
  | metaPrepared pending =>
    simp only [phase, Option.some.injEq, allocateTransSlot] at done
    subst done
    split
    · refine ⟨fun _ => rfl, ?_, by simp⟩
      intro xid flying
      cases flying
      exact Or.inr rfl
    · exact ⟨backend.slot, fun xid flying => backend.single xid (by rw [phase]; exact flying), by simp⟩
  | slotAllocated pending =>
    simp only [phase, updateTransactionSlot] at done
    split at done
    · cases done
    · cases done
      refine ⟨backend.slot, fun xid flying => backend.single xid (by rw [phase]; exact flying), ?_⟩
      rintro _ ⟨⟩
      exact (inv.backend.slotAllocated pending phase).1
  | slotUpdated pending =>
    simp only [phase, Option.some.injEq] at done
    subst done
    exact ⟨backend.slot, fun xid flying => (by cases flying), by simp⟩

end Backend

/-- What an event leaves alone. -/
structure Elsewhere (zid : Nat) (before after : UndoSystem) : Prop where
  zone : after.zones zid = before.zones zid
  context : after.contexts zid = before.contexts zid

section Frame

variable {system : UndoSystem} {zid other : Nat}

theorem Elsewhere.refl : Elsewhere zid system system := ⟨rfl, rfl⟩

section

variable (different : zid ≠ other)

include different

theorem Elsewhere.setZone (zone : UndoZone) : Elsewhere zid system (system.setZone other zone) :=
  ⟨update_of_ne different _ _, rfl⟩

theorem Elsewhere.setContext (context : UndoContext) :
    Elsewhere zid system (system.setContext other context) :=
  ⟨rfl, update_of_ne different _ _⟩

theorem Elsewhere.setBoth (zone : UndoZone) (context : UndoContext) :
    Elsewhere zid system ((system.setZone other zone).setContext other context) :=
  ⟨update_of_ne different _ _, update_of_ne different _ _⟩

theorem updateRollbackFinish_elsewhere (pointer : Nat) :
    Elsewhere zid system (system.updateRollbackFinish other pointer) := by
  simp only [UndoSystem.updateRollbackFinish]
  split
  · exact Elsewhere.refl
  split
  · exact ⟨rfl, rfl⟩
  · exact Elsewhere.setZone different _

theorem prepareUndoRecord_elsewhere (request : UndoRequest) :
    Elsewhere zid system (system.prepareUndoRecord other request) := by
  simp only [UndoSystem.prepareUndoRecord]
  split
  · exact Elsewhere.setBoth different _ _
  · exact Elsewhere.refl

theorem undoMetaStep_elsewhere : Elsewhere zid system (system.undoMetaStep other) := by
  unfold UndoSystem.undoMetaStep
  split
  · exact ⟨rfl, rfl⟩
  · exact Elsewhere.setBoth different _ _

theorem contextEvents_elsewhere : Elsewhere zid system (system.abandonUndoRecord other) ∧
      Elsewhere zid system (system.resetUndoActionsInfo other) ∧
      Elsewhere zid system (system.attachZone other) := by
  refine ⟨?_, ?_, ?_⟩
  · unfold UndoSystem.abandonUndoRecord
    split
    · exact Elsewhere.setContext different _
    · exact Elsewhere.refl
  · unfold UndoSystem.resetUndoActionsInfo
    split
    · exact Elsewhere.setContext different _
    · exact Elsewhere.refl
  · unfold UndoSystem.attachZone
    split
    · exact Elsewhere.setContext different _
    · exact Elsewhere.refl

end

end Frame

/-- The round recycles nothing by force. -/
def RecyclerState.Unforced : RecyclerState → Prop
  | .idle => True
  | .zoneLoop round _ => round.forceRecycleXid < firstNormalTransactionId
  | .advancing round _ _ => round.forceRecycleXid < firstNormalTransactionId
  | .entering round _ _ => round.forceRecycleXid < firstNormalTransactionId
  | .recycling round _ _ scan =>
    round.forceRecycleXid < firstNormalTransactionId ∧ scan.forceRecycle = false ∧
      (scan.undoRecycled = true → scan.oldestEndUndoPtr = scan.endUndoPtr)

/-- The event gives the recycler a transaction id below which it may recycle by force. -/
def UndoEvent.forces : UndoEvent → Bool
  | .startRound _ _ forceRecycleXid => decide (firstNormalTransactionId ≤ forceRecycleXid)
  | .finishPass (some forceRecycleXid) => decide (firstNormalTransactionId ≤ forceRecycleXid)
  | _ => false

namespace LoggedSystem

/-- Besides the promises of the system: a backend that starts a transaction has forgotten the slot
of the one before, by `ResetUndoActionsInfo`. -/
def Promised (zid : Nat) (state : LoggedSystem) (event : UndoEvent) : Prop :=
  state.system.Promised event ∧ ∀ request, event = .prepareUndoRecord zid request →
    (state.system.contexts zid).prevXid = 0 ∨ (state.system.contexts zid).prevXid = request.xid

structure Invariant (unforced : Prop) (zoneCount zid : Nat) (state : LoggedSystem) : Prop where
  system : SystemInvariant zoneCount state.system
  recycler : unforced → state.system.recycler.Unforced
  backend : BackendLog (state.system.contexts zid)
  replays : ∃ replica, ReplicaZone.replay {} 0 state.xlog = some replica ∧ replica.UpTo state.xlog.length ∧
    Mirrors unforced (state.system.zones zid) (state.system.contexts zid) state.translot replica.zone

theorem Invariant.initial (unforced : Prop) (zoneCount zid : Nat) : Invariant unforced zoneCount zid {} where
  system := SystemInvariant.initial zoneCount
  recycler := fun _ => trivial
  backend := BackendLog.initial
  replays := by
    refine ⟨{}, rfl, ⟨le_rfl, le_rfl, le_rfl, fun _ => le_rfl⟩, rfl, rfl, rfl,
      fun _ => rfl, rfl, rfl, rfl, rfl, rfl, ?_⟩
    intro pointer _
    exact (ite_self _).symm

end LoggedSystem

/-- The replica follows, and the backend keeps to one transaction. -/
structure Follows (unforced : Prop) (xlog : List UndoXlog) (zid : Nat) (system : UndoSystem) (translot : Bool)
    (replica : UndoZone) : Prop where
  agrees : Agrees unforced xlog (system.zones zid) (system.contexts zid) translot replica
  backend : BackendLog (system.contexts zid)

section Events

variable {zoneCount zid : Nat} {system : UndoSystem} {translot : Bool} {replica : UndoZone} {unforced : Prop}

theorem Follows.elsewhere
    (mirrors : Mirrors unforced (system.zones zid) (system.contexts zid) translot replica)
    (backend : BackendLog (system.contexts zid)) {after : UndoSystem}
    (elsewhere : Elsewhere zid system after) : Follows unforced [] zid after translot replica := by
  refine ⟨?_, ?_⟩
  · rw [elsewhere.zone, elsewhere.context]
    exact mirrors.agrees
  · rw [elsewhere.context]
    exact backend

section

variable (inv : SystemInvariant zoneCount system)
  (mirrors : Mirrors unforced (system.zones zid) (system.contexts zid) translot replica)
  (backend : BackendLog (system.contexts zid))

include inv mirrors backend

theorem updateRollbackFinish_follows (pointer : Nat) :
    Follows unforced (system.rollbackFinishXlog zid pointer) zid (system.updateRollbackFinish zid pointer)
      translot replica := by
  simp only [UndoSystem.updateRollbackFinish, UndoSystem.rollbackFinishXlog]
  by_cases skip : system.xacts.status ((system.zones zid).slots pointer).xactId ≠ .aborted ∨
      ((system.zones zid).slots pointer).needRollback = false
  · rw [if_pos skip, if_pos (by tauto)]
    exact Follows.elsewhere mirrors backend Elsewhere.refl
  rw [if_neg skip]
  split
  · rename_i old
    rw [if_pos (by tauto)]
    exact Follows.elsewhere mirrors backend ⟨rfl, rfl⟩
  · rename_i young
    rw [if_neg (by tauto)]
    push Not at skip
    obtain ⟨number, allocated, rfl⟩ := inv.allocated_of_aborted skip.1
    refine ⟨?_, backend⟩
    simp only [UndoSystem.setZone, update_self]
    exact rollbackFinish_agrees mirrors ((inv.zones zid).pointers.slot_lt_tail allocated)

theorem prepareUndoRecord_follows {request : UndoRequest}
    (single : (system.contexts zid).prevXid = 0 ∨ (system.contexts zid).prevXid = request.xid) :
    Follows unforced (system.prepareUndoRecordXlog zid request) zid (system.prepareUndoRecord zid request)
      translot replica := by
  simp only [UndoSystem.prepareUndoRecord, UndoSystem.prepareUndoRecordXlog]
  split
  · rename_i enabled
    refine ⟨?_, ?_⟩
    · simp only [UndoSystem.setZone, UndoSystem.setContext, update_self]
      exact prepareUndoRecord_agrees mirrors enabled.1 request
    · simp only [UndoSystem.setZone, UndoSystem.setContext, update_self]
      exact prepareUndoRecord_backendLog (inv.zones zid) backend enabled.1 single
  · exact Follows.elsewhere mirrors backend Elsewhere.refl

theorem undoMetaStep_follows (promised : system.Promised (.undoMetaStep zid)) :
    Follows unforced (undoMetaXlog (system.contexts zid) translot) zid (system.undoMetaStep zid)
      (match (system.contexts zid).phase with
        | .metaPrepared pending => decide (pending.xid ≠ (system.contexts zid).prevXid)
        | _ => translot) replica := by
  obtain ⟨result, done, -, -⟩ := undoMetaStep_invariant (inv.zones zid) promised
  simp only [UndoSystem.undoMetaStep, done]
  refine ⟨?_, ?_⟩
  · simp only [UndoSystem.setZone, UndoSystem.setContext, update_self]
    exact undoMetaStep_agrees mirrors (inv.zones zid) backend done
  · simp only [UndoSystem.setZone, UndoSystem.setContext, update_self]
    exact undoMetaStep_backendLog (inv.zones zid) backend done

end

section

variable (mirrors : Mirrors unforced (system.zones zid) (system.contexts zid) translot replica)

include mirrors

/-- A backend outside of its critical section may drop what it was about to do. -/
theorem Follows.setContext (free : (system.contexts zid).phase.locked = false) {context : UndoContext}
    (ready : context.phase = .ready) (slot : context.prevXid ≠ 0 → context.slot = context.slotPtr) :
    Follows unforced [] zid (system.setContext zid context) translot replica := by
  refine ⟨?_, ?_⟩
  · simp only [UndoSystem.setContext, update_self]
    exact (mirrors.setContext free (by rw [ready, UndoPhase.locked]) translot).agrees
  · simp only [UndoSystem.setContext, update_self]
    exact ⟨slot, by simp [ready, UndoPhase.xid?], by simp [ready]⟩

variable (backend : BackendLog (system.contexts zid))
include backend

theorem abandonUndoRecord_follows :
    Follows unforced [] zid (system.abandonUndoRecord zid) translot replica := by
  unfold UndoSystem.abandonUndoRecord
  split
  · rename_i pending phase
    exact Follows.setContext mirrors (by rw [phase, UndoPhase.locked]) rfl backend.slot
  · exact Follows.elsewhere mirrors backend Elsewhere.refl

theorem resetUndoActionsInfo_follows :
    Follows unforced [] zid (system.resetUndoActionsInfo zid) translot replica := by
  unfold UndoSystem.resetUndoActionsInfo
  split
  · rename_i ready
    exact Follows.setContext mirrors (by rw [ready, UndoPhase.locked]) ready fun _ => rfl
  · exact Follows.elsewhere mirrors backend Elsewhere.refl

theorem attachZone_follows :
    Follows unforced [] zid (system.attachZone zid) translot replica := by
  unfold UndoSystem.attachZone
  split
  · rename_i ready
    exact Follows.setContext mirrors (by rw [ready, UndoPhase.locked]) rfl fun _ => rfl
  · exact Follows.elsewhere mirrors backend Elsewhere.refl

/-- The recycler changes the zone it is at; the replica of that zone gets the records. -/
theorem Follows.recycleZone {idx : Nat} {zone : UndoZone} {xlog : List UndoXlog}
    (agrees : idx = zid → Agrees unforced xlog zone (system.contexts zid) translot replica)
    (recycler : RecyclerState) :
    Follows unforced (if idx = zid then xlog else []) zid
      { system.setZone idx zone with recycler := recycler } translot replica := by
  by_cases here : idx = zid
  · subst here
    rw [if_pos rfl]
    refine ⟨?_, backend⟩
    simp only [UndoSystem.setZone, update_self]
    exact agrees rfl
  · rw [if_neg here]
    refine ⟨?_, backend⟩
    simp only [UndoSystem.setZone, update_of_ne (Ne.symm here)]
    exact mirrors.agrees

theorem Follows.recycleUnlogged {idx : Nat} {zone : UndoZone}
    (same : idx = zid → Mirrors unforced zone (system.contexts zid) translot replica)
    (recycler : RecyclerState) :
    Follows unforced [] zid { system.setZone idx zone with recycler := recycler } translot replica := by
  have follows := Follows.recycleZone mirrors backend (fun here => (same here).agrees) recycler
  rwa [ite_self] at follows

end

theorem recycle_follows (inv : SystemInvariant zoneCount system)
    (quiet : unforced → system.recycler.Unforced)
    (mirrors : Mirrors unforced (system.zones zid) (system.contexts zid) translot replica)
    (backend : BackendLog (system.contexts zid)) :
    Follows unforced (system.xlog zoneCount translot zid .recycle) zid (system.recycle zoneCount) translot
      replica := by
  have calm := (recycle_invariant inv).inv.calm
  unfold UndoSystem.recycle at calm
  unfold UndoSystem.xlog UndoSystem.recycle
  cases recycler : system.recycler with
  | idle => exact Follows.elsewhere mirrors backend Elsewhere.refl
  | zoneLoop round idx =>
    dsimp only
    split
    · simp only [UndoSystem.enterZone]
      split
      · refine Follows.recycleUnlogged mirrors backend ?_ _
        rintro rfl
        split
        · exact { mirrors with }
        · exact mirrors
      · exact Follows.elsewhere mirrors backend ⟨rfl, rfl⟩
    · exact Follows.elsewhere mirrors backend Elsewhere.refl
  | advancing round idx scan =>
    dsimp only
    split
    · exact Follows.elsewhere mirrors backend ⟨rfl, rfl⟩
    · rename_i zone scan' result
      obtain ⟨frozenXid, rfl⟩ := FrozenScan.step_zone _ _ _ _ _ (Or.inl result)
      refine Follows.recycleUnlogged mirrors backend ?_ _
      rintro rfl
      exact { mirrors with }
    · rename_i zone scan' result
      obtain ⟨frozenXid, rfl⟩ := FrozenScan.step_zone _ _ _ _ _ (Or.inr result)
      refine Follows.recycleUnlogged mirrors backend ?_ _
      rintro rfl
      exact { mirrors with }
  | entering round idx frozenXid => exact Follows.elsewhere mirrors backend ⟨rfl, rfl⟩
  | recycling round idx frozenXid scan =>
    rw [recycler] at calm quiet
    have together := fun unforced => (quiet unforced).2.2
    dsimp only at calm ⊢
    cases result : scan.step (round.xids frozenXid) system.xacts system.globals
        (system.contexts idx).phase.locked (system.zones idx) with
    | panic => simp [result] at calm
    | goOn zone scan' =>
      refine Follows.recycleZone mirrors backend ?_ _
      rintro rfl
      exact RecycleScan.step_agrees mirrors scan _ _ _ together (Or.inl result)
    | finished zone scan' =>
      refine Follows.recycleZone mirrors backend ?_ _
      rintro rfl
      exact RecycleScan.step_agrees mirrors scan _ _ _ together (Or.inr result)

theorem Follows.onZone (zoneCount : Nat)
    (mirrors : Mirrors unforced (system.zones zid) (system.contexts zid) translot replica)
    (backend : BackendLog (system.contexts zid)) (other : Nat)
    (action : UndoSystem → Nat → UndoSystem) {xlog : List UndoXlog} {translot' : Bool}
    (here : other = zid → Follows unforced xlog zid (action system zid) translot' replica)
    (there : zid ≠ other → Elsewhere zid system (action system other)) :
    Follows unforced (if other = zid ∧ zid < zoneCount then xlog else []) zid
      (system.onZone zoneCount other action)
      (if other = zid ∧ zid < zoneCount then translot' else translot) replica := by
  unfold UndoSystem.onZone
  by_cases mine : other = zid ∧ zid < zoneCount
  · simp only [if_pos mine]
    obtain ⟨rfl, inside⟩ := mine
    rw [if_pos inside]
    exact here rfl
  · simp only [if_neg mine]
    split
    · rename_i inside
      refine Follows.elsewhere mirrors backend (there ?_)
      rintro rfl
      exact mine ⟨rfl, inside⟩
    · exact Follows.elsewhere mirrors backend Elsewhere.refl

/-- What one event does, whichever zone it is about. -/
theorem UndoSystem.act_follows (inv : SystemInvariant zoneCount system)
    (quiet : unforced → system.recycler.Unforced)
    (mirrors : Mirrors unforced (system.zones zid) (system.contexts zid) translot replica)
    (backend : BackendLog (system.contexts zid)) {event : UndoEvent}
    (promised : system.Promised event)
    (single : ∀ request, event = .prepareUndoRecord zid request →
      (system.contexts zid).prevXid = 0 ∨ (system.contexts zid).prevXid = request.xid) :
    Follows unforced (system.xlog zoneCount translot zid event) zid (system.act zoneCount event)
      (system.translotAfter zoneCount translot zid event) replica := by
  cases event with
  | beginTransaction => exact Follows.elsewhere mirrors backend ⟨rfl, rfl⟩
  | commitTransaction xid =>
    refine Follows.elsewhere mirrors backend ?_
    simp only [act, endTransaction]
    split <;> exact ⟨rfl, rfl⟩
  | abortTransaction xid =>
    refine Follows.elsewhere mirrors backend ?_
    simp only [act, endTransaction]
    split <;> exact ⟨rfl, rfl⟩
  | updateRollbackFinish other pointer =>
    have follows := Follows.onZone zoneCount mirrors backend other
      (fun system zid => system.updateRollbackFinish zid pointer)
      (fun _ => updateRollbackFinish_follows inv mirrors backend pointer)
      fun different => updateRollbackFinish_elsewhere different pointer
    rwa [ite_self translot] at follows
  | prepareUndoRecord other request =>
    have follows := Follows.onZone zoneCount mirrors backend other
      (fun system zid => system.prepareUndoRecord zid request)
      (fun same => prepareUndoRecord_follows inv mirrors backend (single request (by rw [same])))
      fun different => prepareUndoRecord_elsewhere different request
    rwa [ite_self translot] at follows
  | undoMetaStep other =>
    exact Follows.onZone zoneCount mirrors backend other undoMetaStep
      (fun same => undoMetaStep_follows inv mirrors backend (same ▸ promised))
      fun different => undoMetaStep_elsewhere different
  | abandonUndoRecord other =>
    have follows := Follows.onZone zoneCount mirrors backend other abandonUndoRecord
      (fun _ => abandonUndoRecord_follows mirrors backend)
      fun different => (contextEvents_elsewhere different).1
    rwa [ite_self translot, ite_self] at follows
  | resetUndoActionsInfo other =>
    have follows := Follows.onZone zoneCount mirrors backend other resetUndoActionsInfo
      (fun _ => resetUndoActionsInfo_follows mirrors backend)
      fun different => (contextEvents_elsewhere different).2.1
    rwa [ite_self translot, ite_self] at follows
  | attachZone other =>
    have follows := Follows.onZone zoneCount mirrors backend other attachZone
      (fun _ => attachZone_follows mirrors backend)
      fun different => (contextEvents_elsewhere different).2.2
    rwa [ite_self translot, ite_self] at follows
  | startRound oldestXmin recycleXmin forceRecycleXid =>
    refine Follows.elsewhere mirrors backend ?_
    simp only [act, startRound]
    repeat' split
    all_goals exact ⟨rfl, rfl⟩
  | recycle => exact recycle_follows inv quiet mirrors backend
  | finishPass retry =>
    refine Follows.elsewhere mirrors backend ?_
    simp only [act, finishPass]
    repeat' split
    all_goals exact ⟨rfl, rfl⟩
  | restartRecycler => exact Follows.elsewhere mirrors backend ⟨rfl, rfl⟩

end Events

end OpenGauss.Undo
