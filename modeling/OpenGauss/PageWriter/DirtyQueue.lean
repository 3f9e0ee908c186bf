import OpenGauss.Lib.Run

/-! The dirty page queue: backends push and remove buffers, the page writer prunes the queue and
moves its head, and a checkpoint names the place up to which pages are to be flushed. Positions
count from the start; a position has its slot at the remainder by the size of the queue. -/

namespace OpenGauss.PageWriter

def pageQueueSlotMinReserveNum : Nat := 2

/-- `size` is `dirty_page_queue_size`, `needPruneNum` is its share `NEED_PRUNE_DIRTY_QUEUE_SLOT`
rounded up, and the others are `MAX_INVALID_BUF_SLOT` and `MAX_VALID_BUF_SLOT`. -/
structure QueueSizes where
  size : Nat
  needPruneNum : Nat
  maxInvalidBufSlot : Nat
  maxValidBufSlot : Nat

/-- Buffer 0 is no buffer; `valid` is `SLOT_VALID`. -/
structure DirtyPageQueueSlot where
  buffer : Nat := 0
  valid : Bool := false
  deriving DecidableEq, Repr

/-- Record position 0 is invalid, and no location is `PG_UINT64_MAX`. -/
structure BufferDescExtra where
  recLsn : Nat := 0
  dirtyQueueLoc : Option Nat := none
  deriving DecidableEq, Repr

inductive HdrLocker where
  | backend (id : Nat)
  | writer
  deriving DecidableEq, Repr

inductive PruneLocker where
  | writer
  | checkpointer
  deriving DecidableEq, Repr

/-- A backend that has the lock of a buffer header, between two accesses of `push_pending_flush_queue` or
`remove_dirty_page_from_queue`. -/
inductive BackendPc where
  | idle
  | holding (buffer : Nat)
  | comparing (buffer lsn tail : Nat)
  | measuring (buffer lsn tail head : Nat)
  | exchanging (buffer lsn tail : Nat)
  | reserved (buffer lsn loc : Nat)
  | stamped (buffer lsn loc : Nat)
  | placed (buffer lsn loc : Nat)
  | filled (buffer lsn loc : Nat)
  | emptied (buffer : Nat)
  | unstamped (buffer : Nat)
  deriving DecidableEq, Repr

/-- What the first loop of the prune found: the valid slots, the last one first, and the last invalid one. -/
structure Found where
  validBuffers : List Nat := []
  invalidSlotNum : Nat := 0
  lastInvalidSlot : Nat := 0
  deriving DecidableEq, Repr

/-- The main thread of the page writer, between two accesses. -/
inductive WriterPc where
  | idle
  | expecting (head : Nat)
  | targeting (head : Nat)
  | resetting (full : Bool)
  | scanning (num i : Nat) (found : Found)
  | looking (num i : Nat) (found : Found)
  | pruning (rest : List Nat) (last : Nat)
  | comparing (rest : List Nat) (last : Nat)
  | raising (rest : List Nat) (last : Nat)
  | choosing (rest : List Nat) (last : Nat)
  | peeking (source : Nat) (rest : List Nat) (last : Nat)
  | guarding (source : Nat) (rest : List Nat) (last : Nat)
  | finding (source : Nat) (rest : List Nat) (last : Nat)
  | locking (buffer source : Nat) (rest : List Nat) (last : Nat)
  | rechecking (buffer source : Nat) (rest : List Nat) (last : Nat)
  | copying (buffer source : Nat) (rest : List Nat) (last : Nat)
  | relocating (buffer source : Nat) (rest : List Nat) (last : Nat)
  | vacating (buffer source : Nat) (rest : List Nat) (last : Nat)
  | unlocking (buffer : Nat) (rest : List Nat) (last : Nat)
  | releasing
  | panicked
  /-- the loops that move the head -/
  | skipping (num i : Nat)
  | probing (num i : Nat)
  | advancing (num i : Nat)
  | clearing (num i : Nat)
  deriving DecidableEq, Repr

inductive CheckpointPc where
  | idle
  | storing (loc : Nat)
  | counting
  | flagging
  | flushing
  | locking (target : Nat)
  | starting (target : Nat)
  | testing (target loc : Nat)
  | stating (target loc : Nat)
  | reading (target loc : Nat)
  | stamping (target loc buffer : Nat)
  | rereading (target loc buffer lsn : Nat)
  | ending (target : Nat)
  | locating (loc : Nat)
  | unlocking
  deriving DecidableEq, Repr

/-- `promised` has the buffers in the queue that the checkpoint counts on. -/
structure CkptSystem where
  head : Nat := 0
  tail : Nat := 0
  reclsn : Nat
  slot : Nat → DirtyPageQueueSlot := fun _ => {}
  extra : Nat → BufferDescExtra := fun _ => {}
  hdrLock : Nat → Option HdrLocker := fun _ => none
  pruneLock : Option PruneLocker := none
  expectedFlushLoc : Nat := 0
  flushAll : Bool := false
  backend : Nat → BackendPc := fun _ => .idle
  writer : WriterPc := .idle
  checkpointer : CheckpointPc := .idle
  promised : Nat → Bool := fun _ => false

inductive CkptEvent where
  | lockHdr (id buffer : Nat)
  | push (id : Nat)
  | remove (id : Nat)
  | unlockHdr (id : Nat)
  | backend (id : Nat)
  | updateReclsn (lsn : Nat)
  | expect
  | prune
  /-- `num` is the count of pages, which may have been taken before a wait. -/
  | skipHead (num : Nat)
  | writer
  | fullCheckpoint
  | restartPoint (target : Nat)
  | checkpointer
  deriving DecidableEq, Repr

namespace CkptSystem

variable (sizes : QueueSizes) (system : CkptSystem)

def slotAt (loc : Nat) : DirtyPageQueueSlot := system.slot (loc % sizes.size)

def setSlot (index : Nat) (slot : DirtyPageQueueSlot) : CkptSystem :=
  { system with slot := Function.update system.slot index slot }

def setExtra (buffer : Nat) (extra : BufferDescExtra) : CkptSystem :=
  { system with extra := Function.update system.extra buffer extra }

def setBackend (id : Nat) (pc : BackendPc) : CkptSystem :=
  { system with backend := Function.update system.backend id pc }

def setHdrLock (buffer : Nat) (locker : Option HdrLocker) : CkptSystem :=
  { system with hdrLock := Function.update system.hdrLock buffer locker }

def stepBackend (id : Nat) : CkptSystem :=
  match system.backend id with
  | .idle | .holding _ => system
  | .comparing buffer lsn tail => system.setBackend id (.measuring buffer lsn tail system.head)
  | .measuring buffer lsn tail head =>
    if sizes.size ≤ system.tail - head + pageQueueSlotMinReserveNum then system.setBackend id (.holding buffer)
    else system.setBackend id (.exchanging buffer lsn tail)
  | .exchanging buffer lsn tail =>
    if system.reclsn = lsn ∧ system.tail = tail then
      { system.setBackend id (.reserved buffer lsn tail) with tail := tail + 1 }
    else system.setBackend id (.comparing buffer system.reclsn system.tail)
  | .reserved buffer lsn loc =>
    (system.setExtra buffer { system.extra buffer with recLsn := lsn }).setBackend id (.stamped buffer lsn loc)
  | .stamped buffer lsn loc =>
    (system.setExtra buffer { system.extra buffer with dirtyQueueLoc := some (loc % sizes.size) }).setBackend id
      (.placed buffer lsn loc)
  | .placed buffer lsn loc =>
    (system.setSlot (loc % sizes.size) { system.slotAt sizes loc with buffer }).setBackend id
      (.filled buffer lsn loc)
  | .filled buffer _ loc =>
    (system.setSlot (loc % sizes.size) { system.slotAt sizes loc with valid := true }).setBackend id
      (.holding buffer)
  | .emptied buffer =>
    { (system.setExtra buffer { system.extra buffer with recLsn := 0 }).setBackend id (.unstamped buffer) with
      promised := Function.update system.promised buffer false }
  | .unstamped buffer =>
    (system.setExtra buffer { system.extra buffer with dirtyQueueLoc := none }).setBackend id (.holding buffer)

def removeDirtyPage (id buffer : Nat) : CkptSystem :=
  match (system.extra buffer).dirtyQueueLoc with
  | none => system
  | some loc => (system.setSlot loc { system.slot loc with buffer := 0 }).setBackend id (.emptied buffer)

def Found.look (found : Found) (loc buffer : Nat) : Found :=
  if buffer ≠ 0 then { found with validBuffers := loc :: found.validBuffers }
  else { found with invalidSlotNum := found.invalidSlotNum + 1, lastInvalidSlot := loc }

def Found.done (found : Found) : WriterPc :=
  if found.validBuffers = [] ∨ found.invalidSlotNum = 0 then .idle
  else .pruning found.validBuffers found.lastInvalidSlot

def stepWriter : CkptSystem :=
  match system.writer with
  | .idle | .panicked => system
  | .expecting head =>
    if system.flushAll then { system with writer := .targeting head }
    else if system.tail ≤ head then { system with writer := .resetting false }
    else { system with writer := .idle }
  | .targeting head =>
    if system.expectedFlushLoc ≤ head then { system with writer := .resetting true }
    else { system with writer := .idle }
  | .resetting _ => { system with flushAll := false, writer := .idle }
  | .scanning num i found =>
    if num ≤ i then { system with writer := Found.done found }
    else if (system.slotAt sizes (system.head + i)).valid = false
      then { system with writer := Found.done found }
    else if sizes.maxInvalidBufSlot ≤ found.invalidSlotNum ∨ sizes.maxValidBufSlot ≤
      found.validBuffers.length then
      { system with writer := Found.done found }
    else { system with writer := .looking num i found }
  | .looking num i found =>
    { system with
      writer := .scanning num (i + 1)
        (Found.look found (system.head + i) (system.slotAt sizes (system.head + i)).buffer) }
  | .pruning rest last =>
    match system.pruneLock with
    | none => { system with pruneLock := some .writer, writer := .comparing rest last }
    | some _ => system
  | .comparing rest last =>
    if system.expectedFlushLoc < last then { system with writer := .raising rest last }
    else { system with writer := .choosing rest last }
  | .raising rest last => { system with expectedFlushLoc := last + 1, writer := .choosing rest last }
  | .choosing [] _ => { system with writer := .releasing }
  | .choosing (source :: rest) last =>
    if last = 0 then { system with writer := .releasing }
    else if last ≤ source then { system with writer := .choosing rest last }
    else { system with writer := .peeking source rest last }
  | .peeking source rest last =>
    if (system.slotAt sizes source).buffer = 0 then { system with writer := .choosing rest last }
    else { system with writer := .guarding source rest last }
  | .guarding source rest last =>
    if (system.slotAt sizes last).buffer ≠ 0 then { system with writer := .panicked }
    else { system with writer := .finding source rest last }
  | .finding source rest last =>
    { system with writer := .locking (system.slotAt sizes source).buffer source rest last }
  | .locking buffer source rest last =>
    match system.hdrLock buffer with
    | none => { system.setHdrLock buffer (some .writer) with writer := .rechecking buffer source rest last }
    | some _ => system
  | .rechecking buffer source rest last =>
    if (system.slotAt sizes source).buffer = 0 then { system with writer := .unlocking buffer rest last }
    else { system with writer := .copying buffer source rest last }
  | .copying buffer source rest last =>
    { system.setSlot (last % sizes.size)
        { system.slotAt sizes last with buffer := (system.slotAt sizes source).buffer } with
      writer := .relocating buffer source rest last }
  | .relocating buffer source rest last =>
    { system.setExtra buffer { system.extra buffer with dirtyQueueLoc := some (last % sizes.size) } with
      writer := .vacating buffer source rest last }
  | .vacating buffer source rest last =>
    { system.setSlot (source % sizes.size) { system.slotAt sizes source with buffer := 0 } with
      writer := .unlocking buffer rest (last - 1) }
  | .unlocking buffer rest last => { system.setHdrLock buffer none with writer := .choosing rest last }
  | .releasing => { system with pruneLock := none, writer := .idle }
  | .skipping num i =>
    if num ≤ i then { system with writer := .idle }
    else if (system.slotAt sizes system.head).valid = false then { system with writer := .idle }
    else { system with writer := .probing num i }
  | .probing num i =>
    if (system.slotAt sizes system.head).buffer ≠ 0 then { system with writer := .idle }
    else { system with writer := .advancing num i }
  | .advancing num i => { system with head := system.head + 1, writer := .clearing num i }
  | .clearing num i =>
    { system.setSlot ((system.head - 1) % sizes.size)
      { system.slotAt sizes (system.head - 1) with valid := false } with
      writer := .skipping num (i + 1) }

/-- The buffers in the queue that a checkpoint up to a record position counts on; all of them without one. -/
def counted (target : Option Nat) : Nat → Bool := fun buffer =>
  (system.extra buffer).recLsn ≠ 0 ∧ ∀ lsn ∈ target, (system.extra buffer).recLsn < lsn

def stepCheckpointer : CkptSystem :=
  match system.checkpointer with
  | .idle => system
  | .storing loc => { system with expectedFlushLoc := loc, checkpointer := .counting }
  | .counting =>
    if system.head < system.tail then { system with checkpointer := .flagging }
    else { system with checkpointer := .flushing }
  | .flagging => { system with flushAll := true, checkpointer := .flushing }
  | .flushing =>
    if system.expectedFlushLoc ≤ system.head ∨ system.head = system.tail then
      { system with flushAll := false, checkpointer := .idle }
    else system
  | .locking target =>
    match system.pruneLock with
    | none => { system with pruneLock := some .checkpointer, checkpointer := .starting target }
    | some _ => system
  | .starting target =>
    if system.head = system.tail then { system with checkpointer := .ending target }
    else { system with checkpointer := .testing target system.head }
  | .testing target loc =>
    if loc < system.tail then { system with checkpointer := .stating target loc }
    else { system with checkpointer := .ending target }
  | .stating target loc =>
    if (system.slotAt sizes loc).valid then { system with checkpointer := .reading target loc }
    else { system with checkpointer := .testing target system.head }
  | .reading target loc =>
    let buffer := (system.slotAt sizes loc).buffer
    if buffer = 0 then { system with checkpointer := .testing target (loc + 1) }
    else { system with checkpointer := .stamping target loc buffer }
  | .stamping target loc buffer =>
    { system with checkpointer := .rereading target loc buffer (system.extra buffer).recLsn }
  | .rereading target loc _ lsn =>
    if (system.slotAt sizes loc).buffer ≠ 0 ∧ target ≤ lsn then
      if loc = 0 then { system with checkpointer := .ending target }
      else { system with promised := system.counted (some target), checkpointer := .locating loc }
    else { system with checkpointer := .testing target (loc + 1) }
  | .ending target =>
    { system with promised := system.counted (some target), checkpointer := .locating system.tail }
  | .locating loc => { system with expectedFlushLoc := loc, checkpointer := .unlocking }
  | .unlocking =>
    { system with
      pruneLock := none
      checkpointer := if system.head < system.expectedFlushLoc then .flagging else .flushing }

def step : CkptEvent → CkptSystem
  | .lockHdr id buffer =>
    if system.backend id = .idle ∧ buffer ≠ 0 ∧ system.hdrLock buffer = none then
      (system.setHdrLock buffer (some (.backend id))).setBackend id (.holding buffer)
    else system
  | .push id =>
    match system.backend id with
    | .holding buffer =>
      if (system.extra buffer).recLsn = 0 then
        system.setBackend id (.comparing buffer system.reclsn system.tail)
      else system
    | _ => system
  | .remove id =>
    match system.backend id with
    | .holding buffer => if (system.extra buffer).recLsn ≠ 0 then system.removeDirtyPage id buffer else system
    | _ => system
  | .unlockHdr id =>
    match system.backend id with
    | .holding buffer => (system.setHdrLock buffer none).setBackend id .idle
    | _ => system
  | .backend id => system.stepBackend sizes id
  | .updateReclsn lsn => if system.reclsn ≤ lsn then { system with reclsn := lsn } else system
  | .expect => if system.writer = .idle then { system with writer := .expecting system.head } else system
  | .prune =>
    if system.writer = .idle ∧ sizes.needPruneNum ≤ system.tail - system.head then
      { system with writer := .scanning (system.tail - system.head) 0 {} }
    else system
  | .skipHead num =>
    if system.writer = .idle ∧ system.head + num ≤ system.tail then { system with writer := .skipping num 0 }
    else system
  | .writer => system.stepWriter sizes
  | .fullCheckpoint =>
    if system.checkpointer = .idle then
      { system with promised := system.counted none, checkpointer := .storing system.tail }
    else system
  | .restartPoint target =>
    if system.checkpointer = .idle then { system with checkpointer := .locking target } else system
  | .checkpointer => system.stepCheckpointer sizes

/-- An empty queue; startup sets its record position before the first push. -/
def init (reclsn : Nat) : CkptSystem := { reclsn }

end CkptSystem

end OpenGauss.PageWriter
