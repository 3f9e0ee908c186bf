import OpenGauss.Undo.RecyclerSafety
import OpenGauss.Undo.ZoneReplay

/-! An operation changes its zone in several steps and logs them in one record, written while the
zone is still locked. Until then the replica owes the primary what these steps have done. -/

namespace OpenGauss.Undo

namespace UndoPhase

def owedInsert : UndoPhase → Nat → Nat
  | ready, insert => insert
  | allocated _, insert => insert
  | metaPrepared pending, _ => offsetPlusUsableBytes pending.lastRecord pending.lastRecordSize
  | slotAllocated pending, _ => offsetPlusUsableBytes pending.lastRecord pending.lastRecordSize
  | slotUpdated pending, _ => offsetPlusUsableBytes pending.lastRecord pending.lastRecordSize

def owedAllocate (translot : Bool) (slotPtr : Nat) : UndoPhase → Nat → Nat
  | slotAllocated _, allocate => if translot then getNextSlotPtr slotPtr else allocate
  | slotUpdated _, allocate => if translot then getNextSlotPtr slotPtr else allocate
  | _, allocate => allocate

def owedSlot (translot : Bool) : UndoPhase → TransactionSlot → TransactionSlot
  | slotAllocated pending, slot => if translot then slot.init pending.xid else slot
  | slotUpdated pending, slot =>
    (if translot then slot.init pending.xid else slot).update pending.firstRecord
      (offsetPlusUsableBytes pending.lastRecord pending.lastRecordSize)
  | _, slot => slot

section Free

variable {phase : UndoPhase}

theorem owedInsert_free (free : phase.locked = false) (insert : Nat) : phase.owedInsert insert = insert := by
  cases phase <;> first | rfl | cases free

theorem owedAllocate_free (free : phase.locked = false) (translot : Bool) (slotPtr allocate : Nat) :
    phase.owedAllocate translot slotPtr allocate = allocate := by
  cases phase <;> first | rfl | cases free

theorem owedSlot_free (free : phase.locked = false) (translot : Bool) (slot : TransactionSlot) :
    phase.owedSlot translot slot = slot := by
  cases phase <;> first | rfl | cases free

end Free

theorem owedSlot_updateRollbackProgress (translot : Bool) (phase : UndoPhase)
    (slot : TransactionSlot) : phase.owedSlot translot slot.updateRollbackProgress =
      (phase.owedSlot translot slot).updateRollbackProgress := by
  cases phase <;> cases translot <;> rfl

end UndoPhase

/-- The replica is the primary, up to what it is owed, without the pages that are gone, and with
its discard pointer at the forced one. -/
structure Mirrors (unforced : Prop) (primary : UndoZone) (context : UndoContext) (translot : Bool)
    (replica : UndoZone) : Prop where
  undoSpace : primary.undoSpace = replica.undoSpace
  slotSpace : primary.slotSpace = replica.slotSpace
  discard : replica.discardURecPtr = replica.forceDiscardURecPtr
  together : unforced → primary.discardURecPtr = primary.forceDiscardURecPtr
  forceDiscard : primary.forceDiscardURecPtr = replica.forceDiscardURecPtr
  recycle : primary.recycleTSlotPtr = replica.recycleTSlotPtr
  recycleXid : primary.recycleXid = replica.recycleXid
  insert : primary.insertURecPtr = context.phase.owedInsert replica.insertURecPtr
  allocate : primary.allocateTSlotPtr =
    context.phase.owedAllocate translot context.slotPtr replica.allocateTSlotPtr
  slots : ∀ pointer, primary.slotSpace.head < pointer → primary.slots pointer =
    if pointer = context.slotPtr then context.phase.owedSlot translot (replica.slots pointer)
    else replica.slots pointer

/-- What the log needs to know about a backend: it works for one transaction at a time. -/
structure BackendLog (context : UndoContext) : Prop where
  slot : context.prevXid ≠ 0 → context.slot = context.slotPtr
  single : ∀ xid, context.phase.xid? = some xid → context.prevXid = 0 ∨ context.prevXid = xid
  updated : ∀ pending, context.phase = .slotUpdated pending → context.prevXid = pending.xid

/-- The records have room in the replica, and bring it to where the primary is now. -/
def Agrees (unforced : Prop) (xlog : List UndoXlog) (primary : UndoZone) (context : UndoContext)
    (translot : Bool)
    (replica : UndoZone) : Prop :=
  Lib.Along UndoXlog.applied (fun zone xlrec => xlrec.HasRoom zone) replica xlog ∧
    Mirrors unforced primary context translot (Lib.run UndoXlog.applied replica xlog)

variable {xacts : Xacts} {primary replica : UndoZone} {context : UndoContext} {translot : Bool}
  {unforced : Prop}

theorem Mirrors.agrees (mirrors : Mirrors unforced primary context translot replica) :
    Agrees unforced [] primary context translot replica := ⟨trivial, mirrors⟩

/-- A backend with nothing logged in flight may change its context. -/
theorem Mirrors.setContext (mirrors : Mirrors unforced primary context translot replica)
    (free : context.phase.locked = false) {context' : UndoContext}
    (free' : context'.phase.locked = false) (translot' : Bool) :
    Mirrors unforced primary context' translot' replica := by
  obtain ⟨undoSpace, slotSpace, discard, together, forceDiscard, recycle, recycleXid, insert,
      allocate, slots⟩ :=
    mirrors
  refine ⟨undoSpace, slotSpace, discard, together, forceDiscard, recycle, recycleXid, ?_, ?_, ?_⟩
  · rw [insert, UndoPhase.owedInsert_free free, UndoPhase.owedInsert_free free']
  · rw [allocate, UndoPhase.owedAllocate_free free, UndoPhase.owedAllocate_free free']
  · intro pointer live
    rw [slots pointer live, UndoPhase.owedSlot_free free, UndoPhase.owedSlot_free free', ite_self, ite_self]

/-- Slots that were allocated lie in front of the tail. -/
theorem ZonePointers.slot_lt_tail (pointers : ZonePointers primary context) {number : Nat}
    (allocated : number < primary.allocNo) : slotPtr number < primary.slotSpace.tail := by
  have tail := pointers.slotTail
  have allocate := pointers.allocate
  have segment := pointers.slotTail_segment
  have before := slotPtr_lt.mpr allocated
  simp only [slotPtr, undoMetaSegmentSize, blockHeaderSize] at *
  omega

section

variable (mirrors : Mirrors unforced primary context translot replica)

include mirrors

theorem Mirrors.extendUndo (tail : Nat) :
    Mirrors unforced { primary with undoSpace := { primary.undoSpace with tail } } context translot
      ((UndoXlog.undoExtend tail).applied replica) :=
  { mirrors with undoSpace := by rw [UndoXlog.applied, mirrors.undoSpace] }

theorem Mirrors.extendSlot (tail : Nat) :
    Mirrors unforced { primary with slotSpace := { primary.slotSpace with tail } } context translot
      ((UndoXlog.slotExtend tail).applied replica) :=
  { mirrors with slotSpace := by rw [UndoXlog.applied, mirrors.slotSpace] }

theorem Mirrors.unlinkUndo (head : Nat) :
    Mirrors unforced { primary with undoSpace := { primary.undoSpace with head } } context translot
      ((UndoXlog.undoUnlink head).applied replica) :=
  { mirrors with undoSpace := by rw [UndoXlog.applied, mirrors.undoSpace] }

theorem Mirrors.unlinkSlot {head : Nat} (later : primary.slotSpace.head ≤ head) :
    Mirrors unforced { primary with slotSpace := { primary.slotSpace with head } } context translot
      ((UndoXlog.slotUnlink head).applied replica) :=
  { mirrors with
    slotSpace := by rw [UndoXlog.applied, mirrors.slotSpace]
    slots := fun pointer live => mirrors.slots pointer (Nat.lt_of_le_of_lt later live) }

theorem allocateSpace_agrees {limitReached : Bool} {size : Nat} {extended : UndoZone}
    (result : primary.allocateSpace limitReached size = some extended) :
    Agrees unforced (primary.allocateSpaceXlog size) extended context translot replica := by
  simp only [UndoZone.allocateSpace, UndoZone.allocateSpaceXlog] at result ⊢
  split at result
  · rename_i short
    rw [if_pos short]
    obtain ⟨space, reached, rfl⟩ := Option.map_eq_some_iff.mp result
    unfold UndoSpace.extendUndoLog at reached
    split at reached
    · cases reached
    · cases reached
      exact ⟨⟨trivial, trivial⟩, mirrors.extendUndo _⟩
  · rename_i enough
    rw [if_neg enough]
    cases result
    exact mirrors.agrees

theorem allocateSlotSpace_agrees {limitReached : Bool} {extended : UndoZone}
    (result : primary.allocateSlotSpace limitReached = some extended) :
    Agrees unforced primary.allocateSlotSpaceXlog extended context translot replica := by
  simp only [UndoZone.allocateSlotSpace, UndoZone.allocateSlotSpaceXlog] at result ⊢
  split at result
  · rename_i short
    rw [if_pos short]
    obtain ⟨space, reached, rfl⟩ := Option.map_eq_some_iff.mp result
    unfold UndoSpace.extendUndoLog at reached
    split at reached
    · cases reached
    · cases reached
      exact ⟨⟨trivial, trivial⟩, mirrors.extendSlot _⟩
  · rename_i enough
    rw [if_neg enough]
    cases result
    exact mirrors.agrees

end

theorem Agrees.append {first second : List UndoXlog} {middle primary' : UndoZone}
    {context' : UndoContext} {translot' : Bool} (before : Agrees unforced first middle context translot replica)
    (after : ∀ between, Mirrors unforced middle context translot between →
      Agrees unforced second primary' context' translot' between) :
    Agrees unforced (first ++ second) primary' context' translot' replica := by
  obtain ⟨room, mirrors⟩ := before
  obtain ⟨room', mirrors'⟩ := after _ mirrors
  exact ⟨(Lib.along_append _ _ _ _).mpr ⟨room, room'⟩, by rwa [Lib.run_append]⟩

theorem Agrees.setContext {xlog : List UndoXlog}
    (agrees : Agrees unforced xlog primary context translot replica)
    (free : context.phase.locked = false) {context' : UndoContext}
    (free' : context'.phase.locked = false) (translot' : Bool) :
    Agrees unforced xlog primary context' translot' replica :=
  ⟨agrees.1, agrees.2.setContext free free' translot'⟩

section

variable (mirrors : Mirrors unforced primary context translot replica)

include mirrors

/-- Everything that `AllocateUndoSpace` did to the spaces is in the log, also when it failed. -/
theorem allocateUndoSpace_agrees (ready : context.phase = .ready) (request : UndoRequest) :
    Agrees unforced (allocateUndoSpaceXlog primary context request)
      (allocateUndoSpace primary context request).1 (allocateUndoSpace primary context request).2
      translot replica := by
  have free : context.phase.locked = false := by rw [ready, UndoPhase.locked]
  simp only [allocateUndoSpaceXlog, allocateUndoSpace]
  generalize (if request.xid ≠ context.prevXid then 0 else context.transUndoSize) = before
  split
  · exact mirrors.agrees.setContext free (by simp [ready, UndoPhase.locked]) _
  cases undoSpace : primary.allocateSpace request.undoLimitReached request.sizes.sum with
  | none => exact mirrors.agrees.setContext free (by simp [ready, UndoPhase.locked]) _
  | some extended =>
    have grown := allocateSpace_agrees mirrors undoSpace
    dsimp only
    split
    · cases slotSpace : extended.allocateSlotSpace request.slotLimitReached with
      | none =>
        simp only [List.append_nil]
        exact grown.setContext free (by simp [ready, UndoPhase.locked]) _
      | some longer =>
        refine Agrees.append grown fun between same => ?_
        exact (allocateSlotSpace_agrees same slotSpace).setContext free rfl _
    · simp only [List.append_nil]
      exact grown.setContext free rfl _

theorem prepareUndoRecord_agrees (ready : context.phase = .ready) (request : UndoRequest) :
    Agrees unforced (if primary.checkNeedSwitch request.transUndoThresholdSize then []
        else allocateUndoSpaceXlog primary context request)
      (prepareUndoRecord primary context request).1 (prepareUndoRecord primary context request).2
      translot replica := by
  unfold prepareUndoRecord
  split
  · exact mirrors.agrees
  · exact allocateUndoSpace_agrees mirrors ready request

theorem prepareUndoMeta_mirrors {pending : PendingUndo} (phase : context.phase = .allocated pending) :
    Mirrors unforced (prepareUndoMeta primary pending) { context with phase := .metaPrepared pending } translot
      replica := by
  have allocate := mirrors.allocate
  have slots := mirrors.slots
  simp only [phase, UndoPhase.owedAllocate, UndoPhase.owedSlot] at allocate slots
  exact { mirrors with insert := rfl, allocate := allocate, slots := slots }

theorem allocateTransSlot_mirrors {pending : PendingUndo} (phase : context.phase = .metaPrepared pending) :
    Mirrors unforced (allocateTransSlot primary context pending).1 (allocateTransSlot primary context pending).2
      (decide (pending.xid ≠ context.prevXid)) replica := by
  have insert := mirrors.insert
  have allocate := mirrors.allocate
  have slots := mirrors.slots
  simp only [phase, UndoPhase.owedInsert, UndoPhase.owedAllocate, UndoPhase.owedSlot, ite_self]
    at insert allocate slots
  unfold allocateTransSlot
  split
  · rename_i other
    refine { mirrors with insert := insert, allocate := ?_, slots := ?_ }
    · simp [UndoPhase.owedAllocate, UndoZone.allocTransactionSlot, other]
    · intro pointer live
      by_cases same : pointer = context.slotPtr
      · subst same
        simp [UndoPhase.owedSlot, UndoZone.allocTransactionSlot, other, slots _ live]
      · simp [UndoZone.allocTransactionSlot, same, slots _ live]
  · rename_i same
    refine { mirrors with insert := insert, allocate := ?_, slots := ?_ }
    · simp [UndoPhase.owedAllocate, same, allocate]
    · intro pointer live
      simp [UndoPhase.owedSlot, same, slots _ live]

theorem updateTransactionSlot_mirrors (place : context.slot = context.slotPtr) {pending : PendingUndo}
    (phase : context.phase = .slotAllocated pending) {result : UndoZone × UndoContext}
    (done : updateTransactionSlot primary context pending = some result) :
    Mirrors unforced result.1 result.2 translot replica := by
  have insert := mirrors.insert
  have allocate := mirrors.allocate
  have slots := mirrors.slots
  simp only [phase, UndoPhase.owedInsert, UndoPhase.owedAllocate, UndoPhase.owedSlot]
    at insert allocate slots
  unfold updateTransactionSlot at done
  split at done
  · cases done
  cases done
  refine { mirrors with insert := insert, allocate := allocate, slots := ?_ }
  intro pointer live
  by_cases same : pointer = context.slotPtr
  · subst same
    simp [UndoPhase.owedSlot, place, slots _ live, insert]
  · simp [place, same, slots _ live]

end

/-- Records about one slot do nothing to the others. -/
theorem liveUpdate_of_ne {head pointer other : Nat} (slots : Nat → TransactionSlot)
    (slot : TransactionSlot) (different : other ≠ pointer) :
    (if head < pointer then Function.update slots pointer slot else slots) other = slots other := by
  split
  · exact Function.update_of_ne different _ _
  · rfl

section

variable (mirrors : Mirrors unforced primary context translot replica)

include mirrors

/-- The record of an operation brings the replica to the point where nothing is owed. -/
theorem finishUndoMeta_agrees (room : context.slotPtr < primary.slotSpace.tail) {pending : PendingUndo}
    (phase : context.phase = .slotUpdated pending) :
    Agrees unforced (undoMetaXlog context translot) primary { context with phase := .ready }
      translot replica := by
  have insert := mirrors.insert
  have allocate := mirrors.allocate
  have slots := mirrors.slots
  simp only [phase, UndoPhase.owedInsert, UndoPhase.owedAllocate, UndoPhase.owedSlot]
    at insert allocate slots
  rw [undoMetaXlog, phase]
  refine ⟨⟨?_, trivial⟩, { mirrors with insert := insert, allocate := allocate, slots := ?_ }⟩
  · simp only [UndoXlog.HasRoom, ← mirrors.slotSpace]
    exact room
  · intro pointer live
    rw [slots pointer live]
    simp only [Lib.run_cons, Lib.run_nil, UndoXlog.applied, UndoPhase.owedSlot, ite_self,
      ← mirrors.slotSpace]
    by_cases same : pointer = context.slotPtr
    · subst same
      simp [live]
    · rw [if_neg same, liveUpdate_of_ne _ _ same]

theorem undoMetaStep_agrees (inv : ZoneInvariant xacts primary context) (backend : BackendLog context)
    {result : UndoZone × UndoContext} (done : undoMetaStep primary context = some result) :
    Agrees unforced (undoMetaXlog context translot) result.1 result.2 (match context.phase with
        | .metaPrepared pending => decide (pending.xid ≠ context.prevXid)
        | _ => translot) replica := by
  have normal : ∀ xid, context.phase.xid? = some xid → xid ≠ 0 := by
    intro xid flying
    have := (inv.backend.inFlight xid flying).1
    simp only [firstNormalTransactionId] at this
    omega
  cases phase : context.phase with
  | ready =>
    simp only [undoMetaStep, phase, Option.some.injEq] at done
    subst done
    simp only [undoMetaXlog, phase]
    exact mirrors.agrees
  | allocated pending =>
    simp only [undoMetaStep, phase, Option.some.injEq] at done
    subst done
    simp only [undoMetaXlog, phase]
    exact (prepareUndoMeta_mirrors mirrors phase).agrees
  | metaPrepared pending =>
    simp only [undoMetaStep, phase, Option.some.injEq] at done
    subst done
    simp only [undoMetaXlog, phase]
    exact (allocateTransSlot_mirrors mirrors phase).agrees
  | slotAllocated pending =>
    have current : context.prevXid ≠ 0 := by
      rw [(inv.backend.slotAllocated pending phase).1]
      exact normal _ (by rw [phase, UndoPhase.xid?])
    simp only [undoMetaStep, phase] at done
    simp only [undoMetaXlog, phase]
    exact (updateTransactionSlot_mirrors mirrors (backend.slot current) phase done).agrees
  | slotUpdated pending =>
    have current : context.prevXid ≠ 0 := by
      rw [backend.updated pending phase]
      exact normal _ (by rw [phase, UndoPhase.xid?])
    obtain ⟨present, slot, -⟩ := inv.backend.current current
    have room : context.slotPtr < primary.slotSpace.tail := by
      rw [← backend.slot current, slot]
      exact inv.pointers.slot_lt_tail (Nat.sub_lt present Nat.one_pos)
    simp only [undoMetaStep, phase, Option.some.injEq] at done
    subst done
    exact finishUndoMeta_agrees mirrors room phase

/-- The rollback worker sets its bit also in a slot whose operation is in flight. -/
theorem rollbackFinish_agrees {pointer : Nat} (room : pointer < primary.slotSpace.tail) :
    Agrees unforced [.rollbackFinish pointer]
      { primary with
        slots := Function.update primary.slots pointer (primary.slots pointer).updateRollbackProgress }
      context translot replica := by
  refine ⟨⟨?_, trivial⟩, { mirrors with slots := ?_ }⟩
  · simp only [UndoXlog.HasRoom, ← mirrors.slotSpace]
    exact room
  intro other live
  change Function.update primary.slots pointer (primary.slots pointer).updateRollbackProgress other = _
  simp only [Lib.run_cons, Lib.run_nil, UndoXlog.applied, ← mirrors.slotSpace]
  by_cases same : other = pointer
  · subst same
    rw [if_pos live, Function.update_self, Function.update_self, mirrors.slots _ live]
    split
    · rw [UndoPhase.owedSlot_updateRollbackProgress]
    · rfl
  · rw [Function.update_of_ne same, mirrors.slots _ live]
    rw [liveUpdate_of_ne _ _ same]

end

end OpenGauss.Undo
