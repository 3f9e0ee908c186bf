import Mathlib.Data.Multiset.Basic
import OpenGauss.Lib.Run
import OpenGauss.UBTree.QueuePage

/-! The recycle queue of one fork. Every event is the part of an operation that runs under the page
locks it holds. -/

namespace OpenGauss.UBTree

def minRecycleQueueBlockNumber : Nat := 6

structure IndexBlock where
  number : Nat
  valid : number < invalidBlockNumber
  deriving DecidableEq, Repr

/-- `UBTreeInitRecycleQueuePage`: `PageInit` has cleared the item area. -/
def initRecycleQueuePage (blkno prevBlkno nextBlkno : Nat) : QueuePage where
  header :=
    { headPage := isMetaPage blkno
      tailPage := isMetaPage blkno
      head := invalidOffset
      tail := invalidOffset
      freeItems := blockGetMaxItems blkno
      freeListHead := invalidOffset
      prevBlkno
      nextBlkno }
  items := fun _ => ⟨0, 0, 0, 0⟩

/-- `InitRecycleQueueInitialPage`: blocks 0 2 4 and blocks 1 3 5 form a circle each. -/
def initRecycleQueueInitialPage (blkno : Nat) : QueuePage :=
  initRecycleQueuePage blkno ((blkno + minRecycleQueueBlockNumber - 2) % minRecycleQueueBlockNumber)
    ((blkno + 2) % minRecycleQueueBlockNumber)

namespace QueuePage

variable (page : QueuePage)

def changeEndpointLeftPage (isHead : Bool) : QueuePage :=
  if isHead then
    { page with header := { page.header with
        head := invalidOffset, tail := invalidOffset, headPage := false } }
  else
    let page := page.modifyItem page.header.tail fun tailItem =>
      { tailItem with next := otherBlockOffset }
    { page with header := { page.header with tailPage := false } }

def changeEndpointRightPage (isHead : Bool) : QueuePage :=
  if isHead then
    let page :=
      if isNormalOffset page.header.head then
        page.modifyItem page.header.head fun headItem => { headItem with prev := invalidOffset }
      else { page with header := { page.header with head := invalidOffset } }
    { page with header := { page.header with headPage := true } }
  else { page with header := { page.header with tailPage := true } }

def queuePageIsEmpty : Bool :=
  !page.header.headPage && !page.header.tailPage && !isNormalOffset page.header.head

/-- The offsets visited by the scan of `GetAvailablePageOnPage`, from the head along `next`. -/
def scanFrom (page : QueuePage) : Nat → Nat → List Nat
  | 0, _ => []
  | fuel + 1, curOffset =>
    if isNormalOffset curOffset then curOffset :: page.scanFrom fuel (page.items curOffset).next
    else []

def itemOffsets : List Nat := page.scanFrom ubtRecycleMaxItems page.header.head

def heldBlocks : List Nat :=
  (page.itemOffsets.map fun offset => (page.items offset).blkno).filter (· ≠ invalidBlockNumber)

end QueuePage

abbrev QueuePages := Nat → QueuePage

variable (pages : QueuePages)

def modifyPage (blkno : Nat) (change : QueuePage → QueuePage) : QueuePages :=
  Function.update pages blkno (change (pages blkno))

def recycleQueueChangeEndpoint (buf nextBuf : Nat) (isHead : Bool) : QueuePages :=
  modifyPage (modifyPage pages buf (·.changeEndpointLeftPage isHead)) nextBuf
    (·.changeEndpointRightPage isHead)

def removeOneItemFromPage (buf offset : Nat) : QueuePages :=
  let pages := modifyPage pages buf (·.removeItem offset)
  let header := (pages buf).header
  if !isNormalOffset header.head && (header.headPage && !header.tailPage) then
    recycleQueueChangeEndpoint pages buf header.nextBlkno true
  else pages

def endpointFlag (header : QueueHeader) (needHead : Bool) : Bool :=
  if needHead then header.headPage else header.tailPage

def stepToEndpoint (pages : QueuePages) (needHead : Bool) : Nat → Nat → Option Nat
  | 0, _ => none
  | fuel + 1, buf =>
    if endpointFlag (pages buf).header needHead then some buf
    else stepToEndpoint pages needHead fuel (pages buf).header.nextBlkno

/-- `MoveToEndpointPage` with the write lock of the endpoint page. -/
def moveToEndpointPage (fuel buf : Nat) (needHead : Bool) :
    Option (QueuePages × Nat) := do
  let buf ← stepToEndpoint pages needHead fuel buf
  let head := (pages buf).header.head
  let pages :=
    if isNormalOffset head && ((pages buf).items head).blkno = invalidBlockNumber then
      removeOneItemFromPage pages buf head
    else pages
  let header := (pages buf).header
  if needHead && (!isNormalOffset header.head && !header.tailPage) then
    let nextBuf := header.nextBlkno
    -- The removal above may have moved the head already.
    let pages := if header.headPage then recycleQueueChangeEndpoint pages buf nextBuf true else pages
    some (pages, nextBuf)
  else some (pages, buf)

/-- `RecycleQueueLinkNewPage`: initialise the new page and link it to the right of `leftBuf`. -/
def recycleQueueLinkNewPage (leftBuf newBuf : Nat) : QueuePages :=
  let rightBuf := (pages leftBuf).header.nextBlkno
  let pages := modifyPage pages newBuf fun _ => initRecycleQueuePage newBuf leftBuf rightBuf
  let pages := modifyPage pages leftBuf fun page =>
    { page with header := { page.header with nextBlkno := newBuf } }
  modifyPage pages rightBuf fun page => { page with header := { page.header with prevBlkno := newBuf } }

/-- An addition that found the tail page full and the next page in use. -/
structure PendingAdd where
  block : IndexBlock
  xid : Nat
  buf : Nat
  newBuf : Option Nat

structure QueueAddress where
  queueBuf : Nat
  indexBlkno : Nat
  offset : Nat
  deriving DecidableEq, Repr

/-- `advised` are the endpoints the meta page may have named so far: it is read without a lock, so
any of them may be used. `added` and `gone` record the blocks inserted so far and those discarded or
invalidated since; no operation reads them. -/
structure RecycleQueue where
  pages : QueuePages
  nblocks : Nat
  advised : List Nat
  adding : List PendingAdd := []
  addresses : List QueueAddress := []
  added : Multiset Nat := 0
  gone : Multiset Nat := 0

namespace RecycleQueue

variable (queue : RecycleQueue)

def insertAt (pages : QueuePages) (buf : Nat) (block : IndexBlock)
    (xid : Nat) : RecycleQueue :=
  { queue with
    pages := modifyPage pages buf fun page =>
      page.insertOnRecycleQueuePage page.pageAllocateItem block.number xid
    added := block.number ::ₘ queue.added }

/-- `UBTreeRecycleQueueAddPage` up to its end, or up to the point where it drops the lock of the
full tail page to extend the relation. -/
def addPage (start : Nat) (block : IndexBlock) (xid : Nat) : RecycleQueue :=
  match moveToEndpointPage queue.pages queue.nblocks start false with
  | none => queue
  | some (pages, buf) =>
    let queue := { queue with advised := buf :: queue.advised }
    if (pages buf).pageAllocateItem ≠ invalidOffset then queue.insertAt pages buf block xid
    else
      let target := (pages buf).header.nextBlkno
      if (pages target).queuePageIsEmpty then
        queue.insertAt (recycleQueueChangeEndpoint pages buf target false) target block xid
      else { queue with pages, adding := ⟨block, xid, buf, none⟩ :: queue.adding }

def extend (index : Nat) : RecycleQueue :=
  match queue.adding[index]? with
  | some pending =>
    if pending.newBuf = none then
      { queue with
        nblocks := queue.nblocks + 1
        adding := queue.adding.set index { pending with newBuf := some queue.nblocks } }
    else queue
  | none => queue

/-- The rest of `AcquireNextAvailableQueuePage` and of the addition, after the extension. -/
def finishAdd (index : Nat) : RecycleQueue :=
  match queue.adding[index]? with
  | some ⟨block, xid, start, some newBuf⟩ =>
    match moveToEndpointPage queue.pages queue.nblocks start false with
    | none => queue
    | some (pages, buf) =>
      let queue := { queue with adding := queue.adding.eraseIdx index }
      let pages := recycleQueueLinkNewPage pages buf newBuf
      if (pages buf).pageAllocateItem ≠ invalidOffset then queue.insertAt pages buf block xid
      else queue.insertAt (recycleQueueChangeEndpoint pages buf newBuf false) newBuf block xid
  | _ => queue

/-- `RecycleQueueGetEndpointPage`, with `TryFixMetaData`. -/
def getEndpointPage (start : Nat) (needHead : Bool) : RecycleQueue :=
  match moveToEndpointPage queue.pages queue.nblocks start needHead with
  | none => queue
  | some (pages, buf) => { queue with pages, advised := buf :: queue.advised }

def stepNextPage (queue : RecycleQueue) (start : Nat) : Nat → Nat
  | 0 => start
  | steps + 1 => queue.stepNextPage ((queue.pages start).header.nextBlkno) steps

/-- `GetAvailablePageOnPage` finds a usable block: its address is kept for the discard. -/
def getAvailable (buf offset : Nat) : RecycleQueue :=
  let item := (queue.pages buf).items offset
  if offset ∈ (queue.pages buf).itemOffsets ∧ item.blkno ≠ invalidBlockNumber then
    { queue with addresses := ⟨buf, item.blkno, offset⟩ :: queue.addresses }
  else queue

def invalidate (buf offset : Nat) : RecycleQueue :=
  let item := (queue.pages buf).items offset
  if offset ∈ (queue.pages buf).itemOffsets ∧ item.blkno ≠ invalidBlockNumber then
    { queue with
      pages := modifyPage queue.pages buf (·.invalidateItem offset)
      gone := item.blkno ::ₘ queue.gone }
  else queue

/-- The loop that removes invalid items on one side of the discarded one. -/
def removeInvalidSide (side : QueueItem → Nat) (buf offset : Nat) : Nat → QueuePages → QueuePages
  | 0, pages => pages
  | fuel + 1, pages =>
    let neighbour := side ((pages buf).items offset)
    if isNormalOffset neighbour && ((pages buf).items neighbour).blkno = invalidBlockNumber then
      removeInvalidSide side buf offset fuel (removeOneItemFromPage pages buf neighbour)
    else pages

def discardPage (index : Nat) : RecycleQueue :=
  match queue.addresses[index]? with
  | none => queue
  | some addr =>
    let queue := { queue with addresses := queue.addresses.eraseIdx index }
    let item := (queue.pages addr.queueBuf).items addr.offset
    -- Already discarded, and the slot reused or still free.
    if item.blkno ≠ addr.indexBlkno ∧ item.blkno ≠ invalidBlockNumber then queue
    else if item.blkno = invalidBlockNumber ∧ item.xid = invalidTransactionId then queue
    else
      let pages := removeInvalidSide (·.prev) addr.queueBuf addr.offset ubtRecycleMaxItems queue.pages
      let pages := removeInvalidSide (·.next) addr.queueBuf addr.offset ubtRecycleMaxItems pages
      { queue with
        pages := removeOneItemFromPage pages addr.queueBuf addr.offset
        -- An invalidated item was counted when it was marked.
        gone := if item.blkno = invalidBlockNumber then queue.gone
          else addr.indexBlkno ::ₘ queue.gone }

end RecycleQueue

/-- `start` and `steps` name a page by an advised block and a number of `StepNextPage` calls. -/
inductive QueueEvent where
  | addPage (start : Nat) (block : IndexBlock) (xid : Nat)
  | extend (index : Nat)
  | otherForkExtends
  | finishAdd (index : Nat)
  | moveToEndpoint (start : Nat) (needHead : Bool)
  | getAvailable (start steps offset : Nat)
  | invalidate (start steps offset : Nat)
  | discardPage (index : Nat)

def RecycleQueue.step (queue : RecycleQueue) : QueueEvent → RecycleQueue
  | .addPage start block xid =>
    match queue.advised[start]? with
    | some buf => queue.addPage buf block xid
    | none => queue
  | .extend index => queue.extend index
  | .otherForkExtends => { queue with nblocks := queue.nblocks + 1 }
  | .finishAdd index => queue.finishAdd index
  | .moveToEndpoint start needHead =>
    match queue.advised[start]? with
    | some buf => queue.getEndpointPage buf needHead
    | none => queue
  | .getAvailable start steps offset =>
    match queue.advised[start]? with
    | some buf => queue.getAvailable (queue.stepNextPage buf steps) offset
    | none => queue
  | .invalidate start steps offset =>
    match queue.advised[start]? with
    | some buf => queue.invalidate (queue.stepNextPage buf steps) offset
    | none => queue
  | .discardPage index => queue.discardPage index

def RecycleQueue.initializeQueue (fork : Fin 2) : RecycleQueue where
  pages := initRecycleQueueInitialPage
  nblocks := minRecycleQueueBlockNumber
  advised := [fork.val]

end OpenGauss.UBTree
