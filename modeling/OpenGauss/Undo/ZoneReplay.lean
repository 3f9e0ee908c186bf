import OpenGauss.Undo.UndoSystem

/-! The write-ahead log of the undo subsystem and its replay on another node. Log sequence numbers
count the records. -/

namespace OpenGauss.Undo

structure XlogUndoMeta where
  xid : Nat
  slotPtr : Nat
  translot : Bool
  startUndoPtr : Nat
  lastRecord : Nat
  lastRecordSize : Nat
  deriving DecidableEq, Repr

structure XlogUndoDiscard where
  startSlot : Nat
  endSlot : Nat
  endUndoPtr : Nat
  recycledXid : Nat
  deriving DecidableEq, Repr

inductive UndoXlog where
  | undoExtend (tail : Nat)
  | slotExtend (tail : Nat)
  | undoUnlink (head : Nat)
  | slotUnlink (head : Nat)
  | discard (xlrec : XlogUndoDiscard)
  | undoMeta (xlrec : XlogUndoMeta)
  | rollbackFinish (slotPtr : Nat)
  deriving DecidableEq, Repr

namespace UndoZone

variable (zone : UndoZone)

def allocateSpaceXlog (size : Nat) : List UndoXlog :=
  let newInsert := offsetPlusUsableBytes zone.insertURecPtr size
  if zone.undoSpace.tail < newInsert then
    [.undoExtend (newInsert + undoLogSegmentSize - newInsert % undoLogSegmentSize)]
  else []

def allocateSlotSpaceXlog : List UndoXlog :=
  let newInsert := offsetPlusUsableBytes zone.allocateTSlotPtr 32
  if zone.slotSpace.tail < newInsert then
    [.slotExtend (newInsert + undoMetaSegmentSize - newInsert % undoMetaSegmentSize)]
  else []

def releaseSpaceXlog (stop : Nat) : List UndoXlog :=
  if zone.undoSpace.head / undoLogSegmentSize < stop / undoLogSegmentSize then
    [.undoUnlink (stop / undoLogSegmentSize * undoLogSegmentSize)]
  else []

def releaseSlotSpaceXlog (stop : Nat) : List UndoXlog :=
  if zone.slotSpace.head / undoMetaSegmentSize < stop / undoMetaSegmentSize then
    [.slotUnlink (stop / undoMetaSegmentSize * undoMetaSegmentSize)]
  else []

end UndoZone

/-- `AllocateUndoSpace`: an extension that fails writes nothing. -/
def allocateUndoSpaceXlog (zone : UndoZone) (context : UndoContext) (request : UndoRequest) :
    List UndoXlog :=
  let size := request.sizes.sum
  let before := if request.xid ≠ context.prevXid then 0 else context.transUndoSize
  if request.transUndoThresholdSize < before + size then []
  else
    match zone.allocateSpace request.undoLimitReached size with
    | none => []
    | some extended =>
      zone.allocateSpaceXlog size ++ if request.xid ≠ context.prevXid ∨ context.slotBufferValid = false then
          match extended.allocateSlotSpace request.slotLimitReached with
          | none => []
          | some _ => extended.allocateSlotSpaceXlog
        else []

/-- The record of an operation is written before `FinishUndoMeta`. -/
def undoMetaXlog (context : UndoContext) (translot : Bool) : List UndoXlog :=
  match context.phase with
  | .slotUpdated pending =>
    [.undoMeta
      { xid := pending.xid
        slotPtr := context.slotPtr
        translot
        startUndoPtr := pending.firstRecord
        lastRecord := pending.lastRecord
        lastRecordSize := pending.lastRecordSize }]
  | _ => []

def RecycleScan.xlog (locked : Bool) (zone : UndoZone) (scan : RecycleScan) : List UndoXlog :=
  match scan.pc with
  | .pageDone =>
    if scan.undoRecycled ∧ locked = false ∧
        zone.checkRecycle scan.startUndoPtr scan.endUndoPtr then
      [.discard
        { startSlot := scan.start
          endSlot := scan.recyclePtr
          endUndoPtr := scan.endUndoPtr
          recycledXid := scan.recycleXid }]
    else []
  | .release =>
    zone.releaseSpaceXlog scan.endUndoPtr ++
      (zone.releaseSpace scan.endUndoPtr).releaseSlotSpaceXlog scan.recyclePtr
  | _ => []

namespace UndoSystem

variable (system : UndoSystem)

def rollbackFinishXlog (zid slotPtr : Nat) : List UndoXlog :=
  let slot := (system.zones zid).slots slotPtr
  if system.xacts.status slot.xactId ≠ .aborted ∨ slot.needRollback = false ∨
      slot.xactId < system.globals.globalRecycleXid then []
  else [.rollbackFinish slotPtr]

def prepareUndoRecordXlog (zid : Nat) (request : UndoRequest) : List UndoXlog :=
  let zone := system.zones zid
  let context := system.contexts zid
  if context.phase = .ready ∧ system.xacts.Active request.xid ∧ request.sizes ≠ [] ∧
      ∀ size ∈ request.sizes, 0 < size then
    if zone.checkNeedSwitch request.transUndoThresholdSize then []
    else allocateUndoSpaceXlog zone context request
  else []

/-- What an event writes about a zone. `translot` says whether the operation in flight in the zone
allocated its slot. -/
def xlog (zoneCount : Nat) (translot : Bool) (zid : Nat) : UndoEvent → List UndoXlog
  | .updateRollbackFinish zid' slotPtr =>
    if zid' = zid ∧ zid < zoneCount then system.rollbackFinishXlog zid slotPtr else []
  | .prepareUndoRecord zid' request =>
    if zid' = zid ∧ zid < zoneCount then system.prepareUndoRecordXlog zid request else []
  | .undoMetaStep zid' =>
    if zid' = zid ∧ zid < zoneCount then undoMetaXlog (system.contexts zid) translot else []
  | .recycle =>
    match system.recycler with
    | .recycling _ idx _ scan =>
      if idx = zid then scan.xlog (system.contexts zid).phase.locked (system.zones zid) else []
    | _ => []
  | _ => []

/-- `allocateTranslot` of the operation in flight, after an event. -/
def translotAfter (zoneCount : Nat) (translot : Bool) (zid : Nat) : UndoEvent → Bool
  | .undoMetaStep zid' =>
    if zid' = zid ∧ zid < zoneCount then
      match (system.contexts zid).phase with
      | .metaPrepared pending => decide (pending.xid ≠ (system.contexts zid).prevXid)
      | _ => translot
    else translot
  | _ => translot

end UndoSystem

/-- A run of the system with the log of one zone. -/
structure LoggedSystem where
  system : UndoSystem := {}
  translot : Bool := false
  xlog : List UndoXlog := []

def LoggedSystem.step (zoneCount zid : Nat) (state : LoggedSystem) (event : UndoEvent) : LoggedSystem :=
  if state.system.panicked then state
  else
    { system := state.system.step zoneCount event
      translot := state.system.translotAfter zoneCount state.translot zid event
      xlog := state.xlog ++ state.system.xlog zoneCount state.translot zid event }

structure ReplicaZone where
  zone : UndoZone := {}
  lsn : Nat := 0
  undoSpaceLsn : Nat := 0
  slotSpaceLsn : Nat := 0
  pageLsn : Nat → Nat := fun _ => 0

namespace ReplicaZone

variable (replica : ReplicaZone)

/-- `IsSkipInsertSlot`; `none` is the `PANIC` on a slot behind the tail. -/
def isSkipInsertSlot (slotPtr : Nat) : Option Bool :=
  if replica.zone.slotSpace.head < slotPtr ∧ slotPtr < replica.zone.slotSpace.tail then some false
  else if replica.zone.slotSpace.tail ≤ slotPtr then none
  else some true

/-- A change of a slot, if its page exists and is older than the record. -/
def redoSlot (lsn slotPtr : Nat) (change : TransactionSlot → TransactionSlot) : Option ReplicaZone :=
  (replica.isSkipInsertSlot slotPtr).map fun skip =>
    if skip = false ∧ replica.pageLsn (slotPtr / blcksz) < lsn then
      { replica with
        zone := { replica.zone with
          slots := Function.update replica.zone.slots slotPtr (change (replica.zone.slots slotPtr)) }
        pageLsn := Function.update replica.pageLsn (slotPtr / blcksz) lsn }
    else replica

def redoZoneMeta (lsn : Nat) (xlrec : XlogUndoMeta) : ReplicaZone :=
  if replica.lsn < lsn then
    { replica with
      zone := { replica.zone with
        insertURecPtr := offsetPlusUsableBytes xlrec.lastRecord xlrec.lastRecordSize
        allocateTSlotPtr :=
          if xlrec.translot then getNextSlotPtr xlrec.slotPtr else replica.zone.allocateTSlotPtr }
      lsn }
  else replica

def redoUndoMeta (lsn : Nat) (xlrec : XlogUndoMeta) : Option ReplicaZone :=
  (replica.redoZoneMeta lsn xlrec).redoSlot lsn xlrec.slotPtr fun slot =>
    (if xlrec.translot then slot.init xlrec.xid else slot).update xlrec.startUndoPtr
      (offsetPlusUsableBytes xlrec.lastRecord xlrec.lastRecordSize)

def xlogUndoDiscardReplay (lsn : Nat) (xlrec : XlogUndoDiscard) : ReplicaZone :=
  if replica.lsn < lsn then
    { replica with
      zone := { replica.zone with
        recycleTSlotPtr := xlrec.endSlot
        discardURecPtr := xlrec.endUndoPtr
        forceDiscardURecPtr := xlrec.endUndoPtr
        recycleXid := xlrec.recycledXid }
      lsn }
  else replica

/-- `ExtendUndoLog` does not look at the limit during recovery. -/
def xlogExtendUndoSpaceReplay (lsn tail : Nat) : ReplicaZone :=
  if replica.undoSpaceLsn < lsn then
    { replica with
      zone := { replica.zone with undoSpace := { replica.zone.undoSpace with tail } }
      undoSpaceLsn := lsn }
  else replica

def xlogExtendSlotSpaceReplay (lsn tail : Nat) : ReplicaZone :=
  if replica.slotSpaceLsn < lsn then
    { replica with
      zone := { replica.zone with slotSpace := { replica.zone.slotSpace with tail } }
      slotSpaceLsn := lsn }
  else replica

def xlogUndoUnlinkReplay (lsn head : Nat) : ReplicaZone :=
  if replica.undoSpaceLsn < lsn then
    { replica with
      zone := { replica.zone with undoSpace := replica.zone.undoSpace.unlinkUndoLog head }
      undoSpaceLsn := lsn }
  else replica

def xlogSlotUnlinkReplay (lsn head : Nat) : ReplicaZone :=
  if replica.slotSpaceLsn < lsn then
    { replica with
      zone := { replica.zone with slotSpace := replica.zone.slotSpace.unlinkUndoLog head }
      slotSpaceLsn := lsn }
  else replica

/-- The redo routines of the undo records and of the heap records that carry `XlogUndoMeta`. -/
def redo (lsn : Nat) : UndoXlog → Option ReplicaZone
  | .undoExtend tail => some (replica.xlogExtendUndoSpaceReplay lsn tail)
  | .slotExtend tail => some (replica.xlogExtendSlotSpaceReplay lsn tail)
  | .undoUnlink head => some (replica.xlogUndoUnlinkReplay lsn head)
  | .slotUnlink head => some (replica.xlogSlotUnlinkReplay lsn head)
  | .discard xlrec => some (replica.xlogUndoDiscardReplay lsn xlrec)
  | .undoMeta xlrec => replica.redoUndoMeta lsn xlrec
  | .rollbackFinish slotPtr => replica.redoSlot lsn slotPtr TransactionSlot.updateRollbackProgress

/-- Replay in order; the first record has the number `lsn + 1`. -/
def replay (replica : ReplicaZone) (lsn : Nat) : List UndoXlog → Option ReplicaZone
  | [] => some replica
  | xlrec :: rest => (replica.redo (lsn + 1) xlrec).bind fun replica => replica.replay (lsn + 1) rest

end ReplicaZone

namespace UndoXlog

/-- What a record does to a zone. A slot whose file is gone is left alone. -/
def applied (zone : UndoZone) : UndoXlog → UndoZone
  | undoExtend tail => { zone with undoSpace := { zone.undoSpace with tail } }
  | slotExtend tail => { zone with slotSpace := { zone.slotSpace with tail } }
  | undoUnlink head => { zone with undoSpace := { zone.undoSpace with head } }
  | slotUnlink head => { zone with slotSpace := { zone.slotSpace with head } }
  | discard xlrec =>
    { zone with
      recycleTSlotPtr := xlrec.endSlot
      discardURecPtr := xlrec.endUndoPtr
      forceDiscardURecPtr := xlrec.endUndoPtr
      recycleXid := xlrec.recycledXid }
  | undoMeta xlrec =>
    { zone with
      insertURecPtr := offsetPlusUsableBytes xlrec.lastRecord xlrec.lastRecordSize
      allocateTSlotPtr :=
        if xlrec.translot then getNextSlotPtr xlrec.slotPtr else zone.allocateTSlotPtr
      slots :=
        if zone.slotSpace.head < xlrec.slotPtr then
          Function.update zone.slots xlrec.slotPtr
            ((if xlrec.translot then (zone.slots xlrec.slotPtr).init xlrec.xid
              else zone.slots xlrec.slotPtr).update xlrec.startUndoPtr
              (offsetPlusUsableBytes xlrec.lastRecord xlrec.lastRecordSize))
        else zone.slots }
  | rollbackFinish slotPtr =>
    { zone with
      slots :=
        if zone.slotSpace.head < slotPtr then
          Function.update zone.slots slotPtr (zone.slots slotPtr).updateRollbackProgress
        else zone.slots }

/-- A record about a slot comes after the extension that made room for it. -/
def HasRoom (zone : UndoZone) : UndoXlog → Prop
  | undoMeta xlrec => xlrec.slotPtr < zone.slotSpace.tail
  | rollbackFinish slotPtr => slotPtr < zone.slotSpace.tail
  | _ => True

end UndoXlog

namespace ReplicaZone

/-- No sequence number of the replica is beyond `bound`. -/
structure UpTo (replica : ReplicaZone) (bound : Nat) : Prop where
  lsn : replica.lsn ≤ bound
  undoSpaceLsn : replica.undoSpaceLsn ≤ bound
  slotSpaceLsn : replica.slotSpaceLsn ≤ bound
  pageLsn : ∀ block, replica.pageLsn block ≤ bound

variable {replica : ReplicaZone} {bound : Nat}

theorem UpTo.succ (upTo : replica.UpTo bound) : replica.UpTo (bound + 1) :=
  ⟨Nat.le_succ_of_le upTo.lsn, Nat.le_succ_of_le upTo.undoSpaceLsn,
    Nat.le_succ_of_le upTo.slotSpaceLsn, fun block => Nat.le_succ_of_le (upTo.pageLsn block)⟩

/-- A slot is changed when its page is older than the record, whatever the zone's own number. -/
theorem redoSlot_applied (upTo : replica.UpTo (bound + 1))
    (pages : ∀ block, replica.pageLsn block ≤ bound) (slotPtr : Nat)
    (change : TransactionSlot → TransactionSlot) (room : slotPtr < replica.zone.slotSpace.tail) :
    ∃ later, replica.redoSlot (bound + 1) slotPtr change = some later ∧
      later.zone = { replica.zone with
        slots :=
          if replica.zone.slotSpace.head < slotPtr then
            Function.update replica.zone.slots slotPtr (change (replica.zone.slots slotPtr))
          else replica.zone.slots } ∧ later.UpTo (bound + 1) := by
  unfold redoSlot isSkipInsertSlot
  by_cases live : replica.zone.slotSpace.head < slotPtr
  · rw [if_pos ⟨live, room⟩, Option.map_some, if_pos ⟨rfl, Nat.lt_succ_of_le (pages _)⟩]
    refine ⟨_, rfl, by simp [live], upTo.lsn, upTo.undoSpaceLsn, upTo.slotSpaceLsn, ?_⟩
    intro block
    change Function.update replica.pageLsn (slotPtr / blcksz) (bound + 1) block ≤ bound + 1
    by_cases same : block = slotPtr / blcksz
    · rw [same, Function.update_self]
    · rw [Function.update_of_ne same]
      exact upTo.pageLsn block
  · rw [if_neg (fun both => live both.1), if_neg (Nat.not_le.mpr room), Option.map_some,
      if_neg (fun both => Bool.noConfusion both.1)]
    exact ⟨_, rfl, by simp [live], upTo⟩

theorem redoZoneMeta_eq (upTo : replica.UpTo bound) (xlrec : XlogUndoMeta) :
    replica.redoZoneMeta (bound + 1) xlrec =
      { replica with
        zone := { replica.zone with
          insertURecPtr := offsetPlusUsableBytes xlrec.lastRecord xlrec.lastRecordSize
          allocateTSlotPtr :=
            if xlrec.translot then getNextSlotPtr xlrec.slotPtr
            else replica.zone.allocateTSlotPtr }
        lsn := bound + 1 } :=
  if_pos (Nat.lt_succ_of_le upTo.lsn)

theorem redoUndoMeta_applied (upTo : replica.UpTo bound) (xlrec : XlogUndoMeta)
    (room : xlrec.slotPtr < replica.zone.slotSpace.tail) :
    ∃ later, replica.redoUndoMeta (bound + 1) xlrec = some later ∧
      later.zone = (UndoXlog.undoMeta xlrec).applied replica.zone ∧ later.UpTo (bound + 1) := by
  have zoneMeta := redoZoneMeta_eq upTo xlrec
  have upTo' : (replica.redoZoneMeta (bound + 1) xlrec).UpTo (bound + 1) := by
    rw [zoneMeta]
    exact ⟨le_rfl, upTo.succ.undoSpaceLsn, upTo.succ.slotSpaceLsn, upTo.succ.pageLsn⟩
  rw [zoneMeta] at upTo'
  rw [redoUndoMeta, zoneMeta]
  exact redoSlot_applied upTo' upTo.pageLsn xlrec.slotPtr _ room

/-- A record newer than everything in the replica has its full effect. -/
theorem redo_applied (upTo : replica.UpTo bound) (xlrec : UndoXlog) (room : xlrec.HasRoom replica.zone) :
    ∃ later, replica.redo (bound + 1) xlrec = some later ∧
      later.zone = xlrec.applied replica.zone ∧ later.UpTo (bound + 1) := by
  have next := upTo.succ
  cases xlrec with
  | undoExtend tail =>
    rw [redo, xlogExtendUndoSpaceReplay, if_pos (Nat.lt_succ_of_le upTo.undoSpaceLsn)]
    exact ⟨_, rfl, rfl, next.lsn, le_rfl, next.slotSpaceLsn, next.pageLsn⟩
  | slotExtend tail =>
    rw [redo, xlogExtendSlotSpaceReplay, if_pos (Nat.lt_succ_of_le upTo.slotSpaceLsn)]
    exact ⟨_, rfl, rfl, next.lsn, next.undoSpaceLsn, le_rfl, next.pageLsn⟩
  | undoUnlink head =>
    rw [redo, xlogUndoUnlinkReplay, if_pos (Nat.lt_succ_of_le upTo.undoSpaceLsn)]
    exact ⟨_, rfl, rfl, next.lsn, le_rfl, next.slotSpaceLsn, next.pageLsn⟩
  | slotUnlink head =>
    rw [redo, xlogSlotUnlinkReplay, if_pos (Nat.lt_succ_of_le upTo.slotSpaceLsn)]
    exact ⟨_, rfl, rfl, next.lsn, next.undoSpaceLsn, le_rfl, next.pageLsn⟩
  | discard xlrec =>
    rw [redo, xlogUndoDiscardReplay, if_pos (Nat.lt_succ_of_le upTo.lsn)]
    exact ⟨_, rfl, rfl, le_rfl, next.undoSpaceLsn, next.slotSpaceLsn, next.pageLsn⟩
  | undoMeta xlrec => exact redoUndoMeta_applied upTo xlrec room
  | rollbackFinish slotPtr => exact redoSlot_applied next upTo.pageLsn slotPtr _ room

/-- Replay of records that all have room has the effect of each of them, in order. -/
theorem replay_applied {xlog : List UndoXlog} (upTo : replica.UpTo bound)
    (room : Lib.Along UndoXlog.applied (fun zone xlrec => xlrec.HasRoom zone) replica.zone xlog) :
    ∃ later, replica.replay bound xlog = some later ∧
      later.zone = Lib.run UndoXlog.applied replica.zone xlog ∧
      later.UpTo (bound + xlog.length) := by
  induction xlog generalizing replica bound with
  | nil => exact ⟨replica, rfl, rfl, upTo⟩
  | cons xlrec rest ih =>
    obtain ⟨next, redone, zone, upTo'⟩ := redo_applied upTo xlrec room.1
    obtain ⟨later, replayed, zone', upTo''⟩ := ih upTo' (zone ▸ room.2)
    refine ⟨later, ?_, ?_, ?_⟩
    · rw [replay, redone, Option.bind_some, replayed]
    · rw [zone', zone, Lib.run_cons]
    · rwa [List.length_cons, Nat.add_comm rest.length, ← Nat.add_assoc]

theorem replay_append (replica : ReplicaZone) (lsn : Nat) (before after : List UndoXlog) :
    replica.replay lsn (before ++ after) =
      (replica.replay lsn before).bind fun next => next.replay (lsn + before.length) after := by
  induction before generalizing replica lsn with
  | nil => rfl
  | cons xlrec rest ih =>
    rw [List.cons_append, replay, replay, Option.bind_assoc]
    congr 1
    funext next
    rw [ih, List.length_cons, Nat.add_comm rest.length, ← Nat.add_assoc]

end ReplicaZone

end OpenGauss.Undo
