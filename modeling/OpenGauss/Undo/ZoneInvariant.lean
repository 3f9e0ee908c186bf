import OpenGauss.Lib.Tiles
import OpenGauss.Undo.UndoZone

/-! The undo recycler: `AdvanceFrozenXid`, `RecycleUndoSpace` and the main loop around them. Each
loop iteration is a step of its own, because transactions go on between any two of them. -/

namespace OpenGauss.Undo

inductive XidStatus where
  | inProgress
  | committed
  | aborted
  deriving DecidableEq, Repr

/-- The transaction log and the process array, as far as the recycler reads them. -/
structure Xacts where
  nextXid : Nat := firstNormalTransactionId
  status : Nat → XidStatus := fun _ => .inProgress

variable (xacts : Xacts)

def Xacts.Active (xid : Nat) : Prop :=
  firstNormalTransactionId ≤ xid ∧ xid < xacts.nextXid ∧ xacts.status xid = .inProgress

instance (xacts : Xacts) (xid : Nat) : Decidable (xacts.Active xid) :=
  inferInstanceAs (Decidable (_ ∧ _))

/-- The two transaction ids of `g_instance.undo_cxt` that the recycler publishes. -/
structure UndoGlobals where
  globalFrozenXid : Nat := 0
  globalRecycleXid : Nat := 0
  deriving DecidableEq, Repr

/-- Transactions below `globalRecycleXid` are not looked up. -/
def uheapTransactionIdDidCommit (globals : UndoGlobals) (xid : Nat) : Bool :=
  decide (xid = frozenTransactionId ∨ (firstNormalTransactionId ≤ xid ∧ xid < globals.globalRecycleXid) ∨
    xacts.status xid = .committed)

/-- `RecheckUndoRecycleXid` warns, or panics when the slot really lost its protection. -/
def recheckUndoRecycleXid (globals : UndoGlobals) (slot : TransactionSlot) : Bool :=
  decide (globals.globalFrozenXid < globals.globalRecycleXid) ||
  (decide (slot.xactId ≠ 0 ∧ slot.xactId < globals.globalFrozenXid) &&
    !uheapTransactionIdDidCommit xacts globals slot.xactId && slot.needRollback)

/-- `CheckUndoZoneMeta` repairs an allocation pointer that wrapped to the first slot. -/
def checkUndoZoneMeta (allocatePtr recyclePtr : Nat) : Nat :=
  if allocatePtr = blockHeaderSize ∧ recyclePtr ≠ blockHeaderSize then allocatePtr + 4294967296
  else allocatePtr

inductive ScanStep (Scan : Type) where
  | panic
  | goOn (zone : UndoZone) (scan : Scan)
  | finished (zone : UndoZone) (scan : Scan)

structure FrozenScan where
  currentSlotPtr : Nat
  allocatePtr : Nat
  frozenXid : Nat
  oldestFrozenSlotPtr : Nat
  deriving DecidableEq, Repr

variable (zone : UndoZone)

def FrozenScan.start (oldestXmin : Nat) : FrozenScan where
  currentSlotPtr :=
    if zone.recycleTSlotPtr < zone.frozenSlotPtr then zone.frozenSlotPtr else zone.recycleTSlotPtr
  allocatePtr := checkUndoZoneMeta zone.allocateTSlotPtr zone.recycleTSlotPtr
  frozenXid := oldestXmin
  oldestFrozenSlotPtr := zone.frozenSlotPtr

def FrozenScan.step (globals : UndoGlobals) (oldestXmin : Nat) (zone : UndoZone)
    (scan : FrozenScan) : ScanStep FrozenScan :=
  if scan.currentSlotPtr < scan.allocatePtr then
    let slot := zone.slots scan.currentSlotPtr
    if slot.xactId = 0 then
      if recheckUndoRecycleXid xacts globals slot then .panic
      else .finished zone { scan with frozenXid := globals.globalFrozenXid }
    else if slot.xactId < globals.globalFrozenXid ∧ recheckUndoRecycleXid xacts globals slot then
      .panic
    else if slot.startUndoPtr = 0 then .finished { zone with frozenXid := slot.xactId } scan
    else if uheapTransactionIdDidCommit xacts globals slot.xactId = false ∧
        slot.xactId < oldestXmin ∧ slot.needRollback then
      .finished { zone with frozenXid := slot.xactId }
        { scan with frozenXid := slot.xactId, oldestFrozenSlotPtr := scan.currentSlotPtr }
    else if oldestXmin ≤ slot.xactId then
      .finished { zone with frozenXid := oldestXmin }
        { scan with oldestFrozenSlotPtr := scan.currentSlotPtr }
    else
      .goOn { zone with frozenXid := slot.xactId }
        { scan with
          currentSlotPtr := getNextSlotPtr scan.currentSlotPtr
          oldestFrozenSlotPtr := getNextSlotPtr scan.currentSlotPtr }
  else .finished zone scan

/-- Where `RecycleUndoSpace` is: at its outer loop, in the loop over one slot page, at the end of
that page, or releasing what the page gave up. -/
inductive RecyclePc where
  | nextPage
  | inspect
  | pageDone
  | release
  deriving DecidableEq, Repr

structure RecycleScan where
  pc : RecyclePc := .nextPage
  recyclePtr : Nat
  allocatePtr : Nat
  start : Nat := 0
  bufBlock : Nat := 0
  startUndoPtr : Nat := 0
  endUndoPtr : Nat := 0
  oldestEndUndoPtr : Nat := 0
  forceRecycle : Bool := false
  undoRecycled : Bool := false
  recycleXid : Nat := 0
  oldestRecycleXid : Nat
  deriving DecidableEq, Repr

structure RecycleXids where
  recycleXmin : Nat
  frozenXid : Nat
  forceRecycleXid : Nat
  deriving DecidableEq, Repr

def RecycleScan.begin (xids : RecycleXids) : RecycleScan where
  recyclePtr := zone.recycleTSlotPtr
  allocatePtr := checkUndoZoneMeta zone.allocateTSlotPtr zone.recycleTSlotPtr
  oldestRecycleXid :=
    if xids.recycleXmin < xids.frozenXid then xids.recycleXmin else xids.frozenXid

inductive SlotVerdict where
  | panic
  | keep
  | recycle
  | forceRecycle
  deriving DecidableEq, Repr

/-- The checks of the inner loop of `RecycleUndoSpace`, in their order. -/
def RecycleXids.verdict (xids : RecycleXids) (xacts : Xacts) (globals : UndoGlobals)
    (slot : TransactionSlot) : SlotVerdict :=
  if slot.xactId = 0 then
    if recheckUndoRecycleXid xacts globals slot then .panic else .keep
  else if slot.startUndoPtr = 0 then .keep
  else if slot.xactId < globals.globalRecycleXid ∧ recheckUndoRecycleXid xacts globals slot then
    .panic
  else if slot.xactId < xids.recycleXmin then
    if xids.frozenXid ≤ slot.xactId then .keep else .recycle
  else if ¬ (firstNormalTransactionId ≤ xids.forceRecycleXid ∧
      slot.xactId < xids.forceRecycleXid) then .keep
  else if xacts.Active slot.xactId then .keep
  else if uheapTransactionIdDidCommit xacts globals slot.xactId = false ∧ slot.needRollback then
    .keep
  else .forceRecycle

/-- The slot under `recyclePtr` goes into the page's batch. -/
def RecycleScan.take (scan : RecycleScan) (slot : TransactionSlot) (forced : Bool) : RecycleScan :=
  { scan with
    forceRecycle := scan.forceRecycle || forced
    startUndoPtr := if scan.startUndoPtr = 0 then slot.startUndoPtr else scan.startUndoPtr
    oldestEndUndoPtr :=
      if scan.forceRecycle || forced then scan.oldestEndUndoPtr else slot.endUndoPtr
    endUndoPtr := slot.endUndoPtr
    recycleXid := slot.xactId
    undoRecycled := true
    recyclePtr := getNextSlotPtr scan.recyclePtr }

def RecycleScan.inspectSlot (xids : RecycleXids) (xacts : Xacts) (globals : UndoGlobals)
    (zone : UndoZone) (scan : RecycleScan) : ScanStep RecycleScan :=
  if scan.bufBlock = scan.recyclePtr / blcksz ∧ scan.recyclePtr < scan.allocatePtr then
    match xids.verdict xacts globals (zone.slots scan.recyclePtr) with
    | .panic => .panic
    | .keep => .goOn zone { scan with pc := .pageDone }
    | .recycle => .goOn zone (scan.take (zone.slots scan.recyclePtr) false)
    | .forceRecycle => .goOn zone (scan.take (zone.slots scan.recyclePtr) true)
  else .goOn zone { scan with pc := .pageDone }

/-- The pointers move under the zone lock, after `CheckRecycle`. -/
def UndoZone.discardBatch (scan : RecycleScan) : UndoZone :=
  { zone with
    discardURecPtr :=
      if scan.oldestEndUndoPtr = 0 then zone.discardURecPtr else scan.oldestEndUndoPtr
    recycleXid := scan.recycleXid
    forceDiscardURecPtr := scan.endUndoPtr
    recycleTSlotPtr := scan.recyclePtr }

/-- One step of `RecycleUndoSpace`; `locked` says that the backend holds the zone lock. -/
def RecycleScan.step (xids : RecycleXids) (xacts : Xacts) (globals : UndoGlobals) (locked : Bool)
    (zone : UndoZone) (scan : RecycleScan) : ScanStep RecycleScan :=
  match scan.pc with
  | .nextPage =>
    if scan.recyclePtr < scan.allocatePtr then
      .goOn zone
        { scan with
          pc := .inspect
          start := scan.recyclePtr
          bufBlock := scan.recyclePtr / blcksz
          startUndoPtr := 0
          undoRecycled := false }
    else .finished zone scan
  | .inspect => scan.inspectSlot xids xacts globals zone
  | .pageDone =>
    if scan.undoRecycled then
      if locked then .goOn zone scan
      else if zone.checkRecycle scan.startUndoPtr scan.endUndoPtr then
        .goOn (zone.discardBatch scan) { scan with pc := .release, oldestRecycleXid := scan.recycleXid }
      else .panic
    else .finished zone scan
  | .release =>
    .goOn ((zone.releaseSpace scan.endUndoPtr).releaseSlotSpace scan.recyclePtr)
      { scan with pc := .nextPage }

structure RecycleRound where
  oldestXmin : Nat
  recycleXmin : Nat
  forceRecycleXid : Nat
  oldestXidHavingUndo : Nat := 0
  oldestFrozenXidInUndo : Nat
  recycleMaxXIDs : List Nat := []
  isAnyZoneUsed : Bool := false
  deriving DecidableEq, Repr

def RecycleRound.xids (round : RecycleRound) (frozenXid : Nat) : RecycleXids where
  recycleXmin := round.recycleXmin
  frozenXid := frozenXid
  forceRecycleXid := round.forceRecycleXid

/-- The main loop after `RecycleUndoSpace` came back from a zone, with `UpdateRecyledXid`. -/
def RecycleRound.afterZone (round : RecycleRound) (frozenXid recycleXid : Nat) : RecycleRound :=
  { round with
    isAnyZoneUsed := true
    oldestFrozenXidInUndo :=
      if frozenXid < round.oldestFrozenXidInUndo then frozenXid else round.oldestFrozenXidInUndo
    recycleMaxXIDs :=
      if recycleXid ≠ 0 then round.recycleMaxXIDs ++ [recycleXid] else round.recycleMaxXIDs }

def updateXidHavingUndo (recycleMaxXIDs : List Nat) (oldestXidHavingUndo oldestXmin : Nat) : Nat :=
  if recycleMaxXIDs = [] then oldestXmin
  else recycleMaxXIDs.foldl
    (fun oldest xid => if oldest = 0 then xid else if xid < oldest then xid else oldest)
    oldestXidHavingUndo

inductive RecyclerState where
  | idle
  | zoneLoop (round : RecycleRound) (idx : Nat)
  | advancing (round : RecycleRound) (idx : Nat) (scan : FrozenScan)
  | entering (round : RecycleRound) (idx frozenXid : Nat)
  | recycling (round : RecycleRound) (idx frozenXid : Nat) (scan : RecycleScan)
  deriving DecidableEq, Repr

def slotPtr (number : Nat) : Nat := number / 255 * 8192 + 24 + number % 255 * 32

def slotNo (pointer : Nat) : Nat := pointer / 8192 * 255 + (pointer % 8192 - 24) / 32

variable (number : Nat)

@[simp] theorem slotNo_slotPtr : slotNo (slotPtr number) = number := by
  unfold slotNo slotPtr
  omega

@[simp] theorem slotNo_zero : slotNo 0 = 0 := rfl

@[simp] theorem slotPtr_zero : slotPtr 0 = blockHeaderSize := rfl

theorem slotPtr_lt {first second : Nat} : slotPtr first < slotPtr second ↔ first < second := by
  unfold slotPtr
  omega

theorem slotPtr_inj {first second : Nat} : slotPtr first = slotPtr second ↔ first = second := by
  unfold slotPtr
  omega

@[simp] theorem getNextSlotPtr_slotPtr :
    getNextSlotPtr (slotPtr number) = slotPtr (number + 1) := by
  simp only [getNextSlotPtr]
  split <;> simp only [slotPtr, blcksz, blockHeaderSize] at * <;> omega

/-- The space for a slot ends on the slot's own page. -/
theorem offsetPlusUsableBytes_slotPtr :
    offsetPlusUsableBytes (slotPtr number) 32 = slotPtr number + 32 := by
  simp only [offsetPlusUsableBytes, Lib.plusUsable, Lib.offsetOfUsable, Lib.usableByteNo, slotPtr,
    blcksz, blockHeaderSize]
  omega

namespace UndoZone

variable (zone : UndoZone)

def slot (number : Nat) : TransactionSlot := zone.slots (slotPtr number)

def allocNo : Nat := slotNo zone.allocateTSlotPtr

def recycleNo : Nat := slotNo zone.recycleTSlotPtr

def frozenNo : Nat := slotNo zone.frozenSlotPtr

def startOf (number : Nat) : Nat := (zone.slot number).startUndoPtr

def stopOf (number : Nat) : Nat := (zone.slot number).endUndoPtr

/-- The slots before this one have their undo range. -/
def closedNo (context : UndoContext) : Nat :=
  match context.phase with
  | .slotAllocated _ => if zone.startOf (zone.allocNo - 1) = 0 then zone.allocNo - 1 else zone.allocNo
  | _ => zone.allocNo

def closedEnd (context : UndoContext) : Nat :=
  match context.phase with
  | .metaPrepared pending => pending.firstRecord
  | .slotAllocated pending => pending.firstRecord
  | _ => zone.insertURecPtr

end UndoZone

/-- The transaction has committed, or aborted with this slot's undo applied. -/
def Settled (slot : TransactionSlot) : Prop :=
  xacts.status slot.xactId = .committed ∨ (xacts.status slot.xactId = .aborted ∧ slot.rollbackFinish = true)

theorem Settled.not_active {xacts : Xacts} {slot : TransactionSlot} (settled : Settled xacts slot) :
    ¬ xacts.Active slot.xactId := by
  rintro ⟨-, -, running⟩
  rcases settled with committed | ⟨aborted, -⟩
  · simp [committed] at running
  · simp [aborted] at running

/-- The pointers of a zone and of the two spaces under it. -/
structure ZonePointers (zone : UndoZone) (context : UndoContext) : Prop where
  allocate : zone.allocateTSlotPtr = slotPtr zone.allocNo
  recycle : zone.recycleTSlotPtr = slotPtr zone.recycleNo
  recycle_le : zone.recycleNo ≤ zone.allocNo
  frozen : zone.frozenSlotPtr = 0 ∨ zone.frozenSlotPtr = slotPtr zone.frozenNo
  frozen_le : zone.frozenNo ≤ zone.allocNo
  fresh : ∀ pointer, (∀ number < zone.allocNo, pointer ≠ slotPtr number) → zone.slots pointer = {}
  tiles : Lib.Tiles zone.startOf zone.stopOf zone.recycleNo (zone.closedNo context)
    zone.forceDiscardURecPtr (zone.closedEnd context)
  closedEnd_le : zone.closedEnd context ≤ zone.insertURecPtr
  discard_le : zone.discardURecPtr ≤ zone.forceDiscardURecPtr
  header_le : blockHeaderSize ≤ zone.forceDiscardURecPtr
  insert_usable : blockHeaderSize ≤ zone.insertURecPtr % blcksz
  undoTail : zone.insertURecPtr ≤ zone.undoSpace.tail ∨
    (zone.insertURecPtr = blockHeaderSize ∧ zone.undoSpace.tail = 0)
  undoTail_segment : zone.undoSpace.tail % undoLogSegmentSize = 0
  undoTail_le : zone.undoSpace.tail ≤ undoLogMaxSize
  undoHead_segment : zone.undoSpace.head % undoLogSegmentSize = 0
  undoHead_le : zone.undoSpace.head ≤ zone.forceDiscardURecPtr
  slotTail : zone.allocateTSlotPtr ≤ zone.slotSpace.tail ∨
    zone.allocateTSlotPtr = zone.slotSpace.tail + blockHeaderSize
  slotTail_segment : zone.slotSpace.tail % undoMetaSegmentSize = 0
  slotTail_le : zone.slotSpace.tail ≤ undoLogMaxSize
  slotHead_segment : zone.slotSpace.head % undoMetaSegmentSize = 0
  slotHead_le : zone.slotSpace.head ≤ zone.recycleTSlotPtr

structure SlotXids (xacts : Xacts) (zone : UndoZone) : Prop where
  normal : ∀ number < zone.allocNo, firstNormalTransactionId ≤ (zone.slot number).xactId
  begun : ∀ number < zone.allocNo, (zone.slot number).xactId < xacts.nextXid
  increasing : ∀ first second, first < second → second < zone.allocNo →
    (zone.slot first).xactId < (zone.slot second).xactId
  rolledBack : ∀ number < zone.allocNo, (zone.slot number).rollbackFinish = true →
    xacts.status (zone.slot number).xactId = .aborted
  recycled : ∀ number < zone.recycleNo, Settled xacts (zone.slot number)
  frozen : ∀ number < zone.frozenNo, Settled xacts (zone.slot number)

def PendingReady (context : UndoContext) (pending : PendingUndo) : Prop :=
  offsetPlusUsableBytes pending.lastRecord pending.lastRecordSize ≤ zone.undoSpace.tail ∧
    pending.firstRecord < offsetPlusUsableBytes pending.lastRecord pending.lastRecordSize ∧
    context.slotBufferValid = true ∧
    (pending.xid ≠ context.prevXid →
      context.slotPtr = zone.allocateTSlotPtr ∧ zone.allocateTSlotPtr < zone.slotSpace.tail)

structure BackendState (xacts : Xacts) (zone : UndoZone) (context : UndoContext) : Prop where
  current : context.prevXid ≠ 0 → 0 < zone.allocNo ∧ context.slot = slotPtr (zone.allocNo - 1) ∧
    (zone.slot (zone.allocNo - 1)).xactId = context.prevXid
  buffer : context.prevXid ≠ 0 → context.slotBufferValid = true
  inFlight : ∀ xid, context.phase.xid? = some xid → xacts.Active xid
  allocated : ∀ pending, context.phase = .allocated pending →
    PendingReady zone context pending ∧ pending.firstRecord = zone.insertURecPtr
  metaPrepared : ∀ pending, context.phase = .metaPrepared pending → PendingReady zone context pending ∧
      zone.insertURecPtr = offsetPlusUsableBytes pending.lastRecord pending.lastRecordSize
  slotAllocated : ∀ pending, context.phase = .slotAllocated pending →
    context.prevXid = pending.xid ∧ pending.firstRecord < zone.insertURecPtr

structure ZoneInvariant (xacts : Xacts) (zone : UndoZone) (context : UndoContext) : Prop where
  pointers : ZonePointers zone context
  xids : SlotXids xacts zone
  backend : BackendState xacts zone context

/-- What the transactions and the backend may do to a zone while the recycler is at work on it:
they add slots of running transactions and leave settled slots as they are. -/
structure ZoneGrows (xacts xacts' : Xacts) (zone zone' : UndoZone) : Prop where
  recycle : zone'.recycleTSlotPtr = zone.recycleTSlotPtr
  forceDiscard : zone'.forceDiscardURecPtr = zone.forceDiscardURecPtr
  allocate : zone.allocNo ≤ zone'.allocNo
  xid : ∀ number < zone.allocNo, (zone'.slot number).xactId = (zone.slot number).xactId
  settled : ∀ number < zone.allocNo, Settled xacts (zone.slot number) →
    Settled xacts' (zone'.slot number) ∧ zone'.startOf number = zone.startOf number ∧
      zone'.stopOf number = zone.stopOf number
  young : ∀ number, zone.allocNo ≤ number → number < zone'.allocNo → xacts.Active (zone'.slot number).xactId

theorem ZoneGrows.of_slots {zone zone' : UndoZone}
    (recycle : zone'.recycleTSlotPtr = zone.recycleTSlotPtr)
    (forceDiscard : zone'.forceDiscardURecPtr = zone.forceDiscardURecPtr)
    (allocate : zone'.allocateTSlotPtr = zone.allocateTSlotPtr) (slots : zone'.slots = zone.slots) :
    ZoneGrows xacts xacts zone zone' := by
  have same : ∀ number, zone'.slot number = zone.slot number := by
    intro number
    rw [UndoZone.slot, slots, UndoZone.slot]
  have count : zone'.allocNo = zone.allocNo := by rw [UndoZone.allocNo, allocate, UndoZone.allocNo]
  refine ⟨recycle, forceDiscard, count.ge, ?_, ?_, ?_⟩
  · intro number _
    rw [same]
  · intro number _ settled
    exact ⟨by rwa [same], by rw [UndoZone.startOf, same, UndoZone.startOf],
      by rw [UndoZone.stopOf, same, UndoZone.stopOf]⟩
  · intro number _ _
    omega

theorem ZoneGrows.refl : ZoneGrows xacts xacts zone zone :=
  ZoneGrows.of_slots xacts rfl rfl rfl rfl

end OpenGauss.Undo
