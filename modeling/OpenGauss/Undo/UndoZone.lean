import OpenGauss.Lib.Paged

/-! An undo zone, its transaction slots, and what the backend attached to it does to it. Pointers
are offsets inside the zone; the invalid ones are 0, as in the source. -/

namespace OpenGauss.Undo

def blcksz : Nat := 8192

def blockHeaderSize : Nat := 24

def undoLogSegmentSize : Nat := 1048576

def undoMetaSegmentSize : Nat := 32768

def undoLogMaxSize : Nat := 17592186044416

def firstNormalTransactionId : Nat := 3

def frozenTransactionId : Nat := 2

def offsetPlusUsableBytes (offset size : Nat) : Nat :=
  Lib.plusUsable blcksz blockHeaderSize offset size

theorem header_fits : blockHeaderSize < blcksz := by decide

theorem offsetPlusUsableBytes_usable (offset size : Nat) :
    blockHeaderSize ≤ offsetPlusUsableBytes offset size % blcksz :=
  Lib.header_le_plusUsable_mod header_fits offset size

theorem le_offsetPlusUsableBytes {offset : Nat} (usable : blockHeaderSize ≤ offset % blcksz)
    (size : Nat) : offset ≤ offsetPlusUsableBytes offset size := by
  calc offset = Lib.plusUsable blcksz blockHeaderSize offset 0 :=
        (Lib.offsetOfUsable_usableByteNo header_fits usable).symm
    _ ≤ offsetPlusUsableBytes offset size := Lib.plusUsable_mono header_fits offset (Nat.zero_le _)

structure TransactionSlot where
  xactId : Nat := 0
  startUndoPtr : Nat := 0
  endUndoPtr : Nat := 0
  /-- The `TRANSLOT_ROLLBACK_FINISH` bit of `info_`. -/
  rollbackFinish : Bool := false
  deriving DecidableEq, Repr

namespace TransactionSlot

variable (slot : TransactionSlot)

/-- `info_ |= TRANSLOT_ROLLBACK` ors in zero, so the bit of the slot's earlier content stays. -/
def init (xid : Nat) : TransactionSlot :=
  { slot with xactId := xid, startUndoPtr := 0, endUndoPtr := 0 }

def update (start stop : Nat) : TransactionSlot :=
  { slot with
    endUndoPtr := stop
    startUndoPtr := if slot.startUndoPtr = 0 then start else slot.startUndoPtr }

def updateRollbackProgress : TransactionSlot :=
  { slot with rollbackFinish := true }

def needRollback : Bool := !slot.rollbackFinish

end TransactionSlot

/-- A slot takes 32 bytes; a page whose remaining space is shorter is left for the next one. -/
def getNextSlotPtr (slotPtr : Nat) : Nat :=
  let block := slotPtr / blcksz
  let offset := slotPtr % blcksz + 32
  if blcksz < 32 + offset then (block + 1) * blcksz + blockHeaderSize
  else offset + block * blcksz

structure UndoSpace where
  head : Nat := 0
  tail : Nat := 0
  deriving DecidableEq, Repr

/-- `none` is the error at `undo_space_limit_size`, raised before the tail is set. -/
def UndoSpace.extendUndoLog (space : UndoSpace) (limitReached : Bool) (offset : Nat) : Option UndoSpace :=
  if space.tail < offset ∧ limitReached then none else some { space with tail := offset }

def UndoSpace.unlinkUndoLog (space : UndoSpace) (offset : Nat) : UndoSpace :=
  { space with head := offset }

structure UndoZone where
  insertURecPtr : Nat := blockHeaderSize
  discardURecPtr : Nat := blockHeaderSize
  forceDiscardURecPtr : Nat := blockHeaderSize
  allocateTSlotPtr : Nat := blockHeaderSize
  recycleTSlotPtr : Nat := blockHeaderSize
  frozenSlotPtr : Nat := 0
  recycleXid : Nat := 0
  frozenXid : Nat := 0
  undoSpace : UndoSpace := {}
  slotSpace : UndoSpace := {}
  /-- The slot pages, by slot pointer; new pages are zero. -/
  slots : Nat → TransactionSlot := fun _ => {}

inductive UndoRecordState where
  | normal | discard | forceDiscard | notInsert
  deriving DecidableEq, Repr

namespace UndoZone

variable (zone : UndoZone)

def used : Bool := zone.insertURecPtr != zone.forceDiscardURecPtr

def checkNeedSwitch (transUndoThresholdSize : Nat) : Bool :=
  decide (zone.insertURecPtr < zone.forceDiscardURecPtr ∨ zone.allocateTSlotPtr < zone.recycleTSlotPtr ∨
    zone.undoSpace.tail < zone.undoSpace.head ∨ zone.slotSpace.tail < zone.slotSpace.head) ||
  decide (offsetPlusUsableBytes zone.insertURecPtr transUndoThresholdSize + undoLogSegmentSize >
      undoLogMaxSize ∨
    zone.undoSpace.tail + undoLogSegmentSize > undoLogMaxSize ∨
    zone.slotSpace.tail + undoMetaSegmentSize > undoLogMaxSize)

def checkRecycle (start stop : Nat) : Bool :=
  decide (zone.forceDiscardURecPtr ≤ zone.insertURecPtr ∧ stop ≤ zone.insertURecPtr ∧
    start < stop ∧ start = zone.forceDiscardURecPtr)

def allocTransactionSlot (slotPtr xid : Nat) : UndoZone :=
  { zone with
    slots := Function.update zone.slots slotPtr ((zone.slots slotPtr).init xid)
    allocateTSlotPtr := getNextSlotPtr slotPtr }

def allocateSpace (limitReached : Bool) (size : Nat) : Option UndoZone :=
  let newInsert := offsetPlusUsableBytes zone.insertURecPtr size
  if zone.undoSpace.tail < newInsert then
    (zone.undoSpace.extendUndoLog limitReached
      (newInsert + undoLogSegmentSize - newInsert % undoLogSegmentSize)).map
      fun space => { zone with undoSpace := space }
  else some zone

def allocateSlotSpace (limitReached : Bool) : Option UndoZone :=
  let newInsert := offsetPlusUsableBytes zone.allocateTSlotPtr 32
  if zone.slotSpace.tail < newInsert then
    (zone.slotSpace.extendUndoLog limitReached
      (newInsert + undoMetaSegmentSize - newInsert % undoMetaSegmentSize)).map
      fun space => { zone with slotSpace := space }
  else some zone

def releaseSpace (stop : Nat) : UndoZone :=
  if zone.undoSpace.head / undoLogSegmentSize < stop / undoLogSegmentSize then
    { zone with
      undoSpace := zone.undoSpace.unlinkUndoLog (stop / undoLogSegmentSize * undoLogSegmentSize) }
  else zone

def releaseSlotSpace (stop : Nat) : UndoZone :=
  if zone.slotSpace.head / undoMetaSegmentSize < stop / undoMetaSegmentSize then
    { zone with
      slotSpace :=
        zone.slotSpace.unlinkUndoLog (stop / undoMetaSegmentSize * undoMetaSegmentSize) }
  else zone

/-- `CheckUndoRecordValid`, with the answer of `GetOldestXminForUndo`. -/
def checkUndoRecordValid (recycleXmin : Nat) (checkForceRecycle : Bool)
    (offset : Nat) : UndoRecordState :=
  if zone.insertURecPtr ≤ offset then .notInsert
  else if zone.forceDiscardURecPtr ≤ offset then .normal
  else if zone.discardURecPtr ≤ offset ∧ checkForceRecycle = true then
    if zone.recycleXid < recycleXmin then .discard else .forceDiscard
  else .discard

end UndoZone

structure PendingUndo where
  xid : Nat
  firstRecord : Nat
  lastRecord : Nat
  lastRecordSize : Nat
  deriving DecidableEq, Repr

/-- How far the backend is between `PrepareUndoRecord` and `FinishUndoMeta`. -/
inductive UndoPhase where
  | ready
  | allocated (pending : PendingUndo)
  | metaPrepared (pending : PendingUndo)
  | slotAllocated (pending : PendingUndo)
  | slotUpdated (pending : PendingUndo)
  deriving DecidableEq, Repr

def UndoPhase.xid? : UndoPhase → Option Nat
  | ready => none
  | allocated pending => some pending.xid
  | metaPrepared pending => some pending.xid
  | slotAllocated pending => some pending.xid
  | slotUpdated pending => some pending.xid

/-- The zone lock is held from `PrepareUndoMeta` to `FinishUndoMeta`. -/
def UndoPhase.locked : UndoPhase → Bool
  | ready => false
  | allocated _ => false
  | _ => true

/-- The part of `t_thrd.undo_cxt` that belongs to one zone. -/
structure UndoContext where
  prevXid : Nat := 0
  /-- `slotPtr`: where the next slot goes, or the last one went. -/
  slotPtr : Nat := 0
  slot : Nat := 0
  transUndoSize : Nat := 0
  slotBufferValid : Bool := false
  phase : UndoPhase := .ready
  deriving DecidableEq, Repr

/-- Each record of a `URecVector` with its pointer, from `AdvanceUndoPtr` to `AdvanceUndoPtr`. -/
def placeRecords (undoPtr : Nat) : List Nat → List (Nat × Nat)
  | [] => []
  | size :: rest => (undoPtr, size) :: placeRecords (offsetPlusUsableBytes undoPtr size) rest

def pendingUndo (xid undoPtr : Nat) (sizes : List Nat) : PendingUndo where
  xid := xid
  firstRecord := undoPtr
  lastRecord := ((placeRecords undoPtr sizes).getLast?.map Prod.fst).getD 0
  lastRecordSize := ((placeRecords undoPtr sizes).getLast?.map Prod.snd).getD 0

/-- What a call of `PrepareUndoRecord` is given: the records' sizes, the session's limit, and
whether each extension meets `undo_space_limit_size`. -/
structure UndoRequest where
  xid : Nat
  sizes : List Nat
  transUndoThresholdSize : Nat
  undoLimitReached : Bool
  slotLimitReached : Bool
  deriving DecidableEq, Repr

variable (zone : UndoZone)

variable (context : UndoContext)

/-- `AllocateUndoSpace`. Every error leaves the phase at `ready`. -/
def allocateUndoSpace (request : UndoRequest) :
    UndoZone × UndoContext :=
  let size := request.sizes.sum
  let before := if request.xid ≠ context.prevXid then 0 else context.transUndoSize
  let context := { context with transUndoSize := before + size }
  -- `RollbackIfUndoExceeds`
  if request.transUndoThresholdSize < before + size then (zone, context)
  else
    let allocated : UndoPhase := .allocated (pendingUndo request.xid zone.insertURecPtr request.sizes)
    match zone.allocateSpace request.undoLimitReached size with
    | none => (zone, context)
    | some extended =>
      if request.xid ≠ context.prevXid ∨ context.slotBufferValid = false then
        match extended.allocateSlotSpace request.slotLimitReached with
        | none => (extended, context)
        | some ready =>
          (ready, { context with
            slotPtr := zone.allocateTSlotPtr
            slotBufferValid := true
            phase := allocated })
      else (extended, { context with phase := allocated })

/-- A zone that would have to be switched is refused with an error. -/
def prepareUndoRecord (request : UndoRequest) :
    UndoZone × UndoContext :=
  if zone.checkNeedSwitch request.transUndoThresholdSize then (zone, context)
  else allocateUndoSpace zone context request

def prepareUndoMeta (pending : PendingUndo) : UndoZone :=
  { zone with
    insertURecPtr := offsetPlusUsableBytes pending.lastRecord pending.lastRecordSize }

def allocateTransSlot (pending : PendingUndo) :
    UndoZone × UndoContext :=
  if pending.xid ≠ context.prevXid then
    (zone.allocTransactionSlot context.slotPtr pending.xid,
      { context with
        prevXid := pending.xid
        slot := context.slotPtr
        phase := .slotAllocated pending })
  else (zone, { context with phase := .slotAllocated pending })

/-- The second half of `UpdateTransactionSlot`; `none` is the panic on a foreign slot. -/
def updateTransactionSlot (pending : PendingUndo) :
    Option (UndoZone × UndoContext) :=
  if (zone.slots context.slot).xactId ≠ pending.xid then none
  else some
    ({ zone with
        slots := Function.update zone.slots context.slot
          ((zone.slots context.slot).update pending.firstRecord zone.insertURecPtr) },
      { context with phase := .slotUpdated pending })

/-- The next statement of the critical section in which an operation writes its undo. -/
def undoMetaStep : Option (UndoZone × UndoContext) :=
  match context.phase with
  | .ready => some (zone, context)
  | .allocated pending =>
    some (prepareUndoMeta zone pending, { context with phase := .metaPrepared pending })
  | .metaPrepared pending => some (allocateTransSlot zone context pending)
  | .slotAllocated pending => updateTransactionSlot zone context pending
  | .slotUpdated _ => some (zone, { context with phase := .ready })

end OpenGauss.Undo
