import OpenGauss.Lib.Linked

/-! One page of the UBTree recycle queue, with the operations of `ubtrecycle.cpp` that change a
single page. -/

namespace OpenGauss.UBTree

def invalidOffset : Nat := 65535

def otherBlockOffset : Nat := 65534

def invalidBlockNumber : Nat := 4294967295

def invalidTransactionId : Nat := 0

def ubtRecycleMaxItems : Nat := 509

def isNormalOffset (offset : Nat) : Bool := offset < otherBlockOffset

def isMetaPage (blkno : Nat) : Bool := blkno < 2

/-- `(BLCKSZ - page header - queue header) / item size`, less the meta data of blocks 0 and 1. -/
def blockGetMaxItems (blkno : Nat) : Nat :=
  if isMetaPage blkno then (8192 - 24 - 24 - 20) / 16 else (8192 - 24 - 24) / 16

structure QueueItem where
  xid : Nat
  blkno : Nat
  prev : Nat
  next : Nat
  deriving DecidableEq, Repr

structure QueueHeader where
  headPage : Bool
  tailPage : Bool
  head : Nat
  tail : Nat
  freeItems : Nat
  freeListHead : Nat
  prevBlkno : Nat
  nextBlkno : Nat
  deriving DecidableEq, Repr

structure QueuePage where
  header : QueueHeader
  items : Nat → QueueItem

namespace QueuePage

variable (page : QueuePage)

def modifyItem (offset : Nat) (change : QueueItem → QueueItem) : QueuePage :=
  { page with items := Function.update page.items offset (change (page.items offset)) }

/-- A slot of the never-used pool, else the head of the free list, else `invalidOffset`. -/
def pageAllocateItem : Nat :=
  if page.header.freeItems > 0 then page.header.freeItems - 1
  else if page.header.freeListHead ≠ invalidOffset then page.header.freeListHead
  else invalidOffset

def takeItem (offset blkno xid : Nat) : QueuePage :=
  let page := page.modifyItem offset fun item => { item with blkno, xid }
  let page :=
    if page.header.freeListHead = offset then
      { page with header := { page.header with freeListHead := (page.items offset).next } }
    else page
  if page.header.freeItems = offset + 1 then
    { page with header := { page.header with freeItems := page.header.freeItems - 1 } }
  else page

/-- The walk from the tail to the last item whose xid does not follow `xid`. -/
def findInsertLoc (items : Nat → QueueItem) (xid : Nat) : Nat → Nat → Nat
  | 0, curOffset => curOffset
  | fuel + 1, curOffset =>
    if xid < (items curOffset).xid then findInsertLoc items xid fuel (items curOffset).prev
    else curOffset

/-- Second part of `InsertOnRecycleQueuePage`: link the slot into the ordered list. -/
def placeItem (offset xid : Nat) : QueuePage :=
  if !isNormalOffset page.header.head then
    let page := page.modifyItem offset fun item =>
      { item with prev := page.header.head, next := invalidOffset }
    { page with header := { page.header with head := offset, tail := offset } }
  else
    let headItem := page.items page.header.head
    if xid ≤ headItem.xid then
      let page := page.modifyItem offset fun item =>
        { item with prev := headItem.prev, next := page.header.head }
      let page := page.modifyItem page.header.head fun item => { item with prev := offset }
      { page with header := { page.header with head := offset } }
    else
      let curOffset := findInsertLoc page.items xid ubtRecycleMaxItems page.header.tail
      let curItem := page.items curOffset
      let page := page.modifyItem offset fun item =>
        { item with prev := curOffset, next := curItem.next }
      let page :=
        if isNormalOffset curItem.next then
          page.modifyItem curItem.next fun item => { item with prev := offset }
        else { page with header := { page.header with tail := offset } }
      page.modifyItem curOffset fun item => { item with next := offset }

def insertOnRecycleQueuePage (offset blkno xid : Nat) : QueuePage :=
  (page.takeItem offset blkno xid).placeItem offset xid

/-- Let the neighbours of an item that leaves the list point to each other. -/
def joinNeighbours (item : QueueItem) : QueuePage :=
  let page :=
    if isNormalOffset item.prev then
      page.modifyItem item.prev fun prevItem => { prevItem with next := item.next }
    else page
  if isNormalOffset item.next then
    page.modifyItem item.next fun nextItem => { nextItem with prev := item.prev }
  else page

def freeItem (offset : Nat) : QueuePage :=
  let page := page.modifyItem offset fun _ =>
    ⟨invalidTransactionId, invalidBlockNumber, invalidOffset, page.header.freeListHead⟩
  { page with header := { page.header with freeListHead := offset } }

/-- The part of `RemoveOneItemFromPage` before the endpoint change. -/
def removeItem (offset : Nat) : QueuePage :=
  let item := page.items offset
  let page :=
    if page.header.head = offset then
      { page with header := { page.header with head := item.next } }
    else page
  let page :=
    if page.header.tail = offset then
      { page with header := { page.header with tail := item.prev } }
    else page
  (page.joinNeighbours item).freeItem offset

/-- The unlogged hint of `GetAvailablePageOnPage`: the block was reused by others. -/
def invalidateItem (offset : Nat) : QueuePage :=
  page.modifyItem offset fun item => { item with blkno := invalidBlockNumber }

end QueuePage

structure QueueModify where
  isInsert : Bool
  offset : Nat
  blkno : Nat
  item : QueueItem
  header : QueueHeader
  deriving DecidableEq, Repr

/-- The record carries the given header with another free list head. -/
def logModifyPage (blkno : Nat) (isInsert : Bool) (offset : Nat) (item : QueueItem)
    (header : QueueHeader) (freeListOffset : Nat) : QueueModify :=
  ⟨isInsert, offset, blkno, item, { header with freeListHead := freeListOffset }⟩

namespace QueuePage

def insertRecord (page : QueuePage) (self offset blkno xid : Nat) : QueueModify :=
  let inserted := page.insertOnRecycleQueuePage offset blkno xid
  logModifyPage self true offset (inserted.items offset) inserted.header inserted.header.freeListHead

/-- The record written by `RemoveOneItemFromPage`: the old item and the old free list head, which
is now the link of the freed slot. -/
def removeRecord (page : QueuePage) (self offset : Nat) : QueueModify :=
  let removed := page.removeItem offset
  logModifyPage self false offset (page.items offset) removed.header (removed.items offset).next

def xlogRecycleQueueModifyPage (page : QueuePage) (xlrec : QueueModify) : QueuePage :=
  let page : QueuePage := { page with header := xlrec.header }
  let page := page.modifyItem xlrec.offset fun _ => xlrec.item
  let item := xlrec.item
  if xlrec.isInsert then
    let page :=
      if isNormalOffset item.prev then
        page.modifyItem item.prev fun prevItem => { prevItem with next := xlrec.offset }
      else page
    if isNormalOffset item.next then
      page.modifyItem item.next fun nextItem => { nextItem with prev := xlrec.offset }
    else page
  else (page.joinNeighbours item).freeItem xlrec.offset

end QueuePage

open Lib

theorem isNormalOffset_iff {offset : Nat} : isNormalOffset offset = true ↔ offset < 65534 :=
  decide_eq_true_iff

theorem not_normal_invalidOffset : isNormalOffset invalidOffset = false := rfl

theorem blockGetMaxItems_le (blkno : Nat) : blockGetMaxItems blkno ≤ ubtRecycleMaxItems := by
  unfold blockGetMaxItems ubtRecycleMaxItems
  split <;> omega

namespace QueuePage

def nextOf (page : QueuePage) (offset : Nat) : Nat := (page.items offset).next

def prevOf (page : QueuePage) (offset : Nat) : Nat := (page.items offset).prev

/-- The used items form a list from head to tail between two end markers. -/
def UsedList (page : QueuePage) (used : List Nat) : Prop :=
  ∃ before after, isNormalOffset before = false ∧ isNormalOffset after = false ∧
    Linked page.nextOf page.prevOf before page.header.head used page.header.tail after

/-- A well-formed queue page: the used items form a doubly linked list ordered by xid, and the
used items, the free list and the never-used slots partition the page. -/
structure Layout (page : QueuePage) (maxItems : Nat) (used free : List Nat) : Prop where
  linked : page.UsedList used
  ordered : used.Pairwise fun left right => (page.items left).xid ≤ (page.items right).xid
  freeList : Threaded page.nextOf page.header.freeListHead free invalidOffset
  freeBlank : ∀ slot ∈ free, (page.items slot).blkno = invalidBlockNumber ∧
    (page.items slot).xid = invalidTransactionId
  nodup : (used ++ free).Nodup
  partition : ∀ slot, slot ∈ used ++ free ↔ page.header.freeItems ≤ slot ∧ slot < maxItems
  capacity : page.header.freeItems ≤ maxItems ∧ maxItems ≤ ubtRecycleMaxItems

namespace Layout

variable {page : QueuePage} {maxItems : Nat} {used free : List Nat}

section

variable (layout : page.Layout maxItems used free)

include layout

theorem normal {slot : Nat} (member : slot ∈ used ++ free) : isNormalOffset slot = true := by
  have bound := ((layout.partition slot).mp member).2
  have capacity : maxItems ≤ 509 := layout.capacity.2
  exact isNormalOffset_iff.mpr (by omega)

theorem normal_used {slot : Nat} (member : slot ∈ used) : isNormalOffset slot = true :=
  layout.normal (List.mem_append_left free member)

theorem marker_apart {marker : Nat} (abnormal : isNormalOffset marker = false) : marker ∉ used ++ free := by
  intro member
  simp [layout.normal member] at abnormal

theorem used_nodup : used.Nodup :=
  (List.nodup_append.mp layout.nodup).1

theorem free_nodup : free.Nodup :=
  (List.nodup_append.mp layout.nodup).2.1

theorem used_free_apart {slot : Nat} (inUsed : slot ∈ used) : slot ∉ free := by
  intro inFree
  exact (List.nodup_append.mp layout.nodup).2.2 slot inUsed slot inFree rfl

/-- The head of a page is normal exactly when the page has used items. -/
theorem head_normal_iff : isNormalOffset page.header.head = true ↔ used ≠ [] := by
  obtain ⟨before, after, -, abnormal, linked⟩ := layout.linked
  constructor
  · rintro normal rfl
    rw [linked.1, abnormal] at normal
    cases normal
  · intro nonempty
    exact layout.normal_used (linked.first_mem nonempty)

theorem allocate (space : page.pageAllocateItem ≠ invalidOffset) :
    page.pageAllocateItem ∉ used ∧ page.pageAllocateItem < maxItems ∧
      ((0 < page.header.freeItems ∧ page.pageAllocateItem = page.header.freeItems - 1 ∧
          page.pageAllocateItem ∉ free) ∨
        (page.header.freeItems = 0 ∧ ∃ rest, free = page.pageAllocateItem :: rest)) := by
  have capacity := layout.capacity.1
  by_cases unused : page.header.freeItems > 0
  · have slot : page.pageAllocateItem = page.header.freeItems - 1 := by
      simp [pageAllocateItem, unused]
    have outside : page.pageAllocateItem ∉ used ++ free := by
      rw [layout.partition, slot]
      omega
    simp only [List.mem_append, not_or] at outside
    exact ⟨outside.1, by omega, Or.inl ⟨unused, slot, outside.2⟩⟩
  · have slot : page.pageAllocateItem = page.header.freeListHead := by
      simp only [pageAllocateItem, unused, if_false]
      split
      · rfl
      · rename_i absent
        exact (not_not.mp absent).symm
    rw [slot] at space
    have chain := layout.freeList
    cases free with
    | nil => exact absurd chain space
    | cons first rest =>
      obtain ⟨same, -⟩ := chain
      rw [slot, same]
      have member : first ∈ used ++ first :: rest := by simp
      refine ⟨?_, ((layout.partition first).mp member).2, Or.inr ⟨by omega, rest, rfl⟩⟩
      intro inUsed
      exact layout.used_free_apart inUsed (by simp)

end

end Layout

end QueuePage

end OpenGauss.UBTree
