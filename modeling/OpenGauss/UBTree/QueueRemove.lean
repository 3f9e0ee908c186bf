import OpenGauss.UBTree.QueueInsert

namespace OpenGauss.UBTree

open Lib

namespace QueuePage

/-- Items after unlinking `offset`, whose neighbours were `left` and `right`, and pushing it on a
free list that started at `freeListHead`. -/
def unlinked (items : Nat → QueueItem) (offset left right freeListHead : Nat) : Nat → QueueItem :=
  fun slot =>
    if slot = offset then
      ⟨invalidTransactionId, invalidBlockNumber, invalidOffset, freeListHead⟩
    else
      { items slot with
        next := if slot = left ∧ isNormalOffset left then right else (items slot).next
        prev := if slot = right ∧ isNormalOffset right then left else (items slot).prev }

/-- Joining the neighbours and freeing the slot, written in one piece. -/
theorem joinNeighbours_freeItem (page : QueuePage) {offset : Nat} {item : QueueItem}
    (prevApart : isNormalOffset item.prev = true → item.prev ≠ offset)
    (nextApart : isNormalOffset item.next = true → item.next ≠ offset)
    (apart : isNormalOffset item.prev = true → item.prev ≠ item.next) :
    (page.joinNeighbours item).freeItem offset = ⟨{ page.header with freeListHead := offset },
        unlinked page.items offset item.prev item.next page.header.freeListHead⟩ := by
  have header : (page.joinNeighbours item).header = page.header := by
    unfold joinNeighbours modifyItem
    split_ifs <;> rfl
  have items : ∀ slot, slot ≠ offset → (page.joinNeighbours item).items slot =
      unlinked page.items offset item.prev item.next page.header.freeListHead slot := by
    intro slot different
    unfold joinNeighbours modifyItem
    by_cases left : isNormalOffset item.prev <;> by_cases right : isNormalOffset item.next <;>
      by_cases atPrev : slot = item.prev <;> by_cases atNext : slot = item.next <;>
      simp_all [unlinked]
  simp only [freeItem, modifyItem, header]
  congr 1
  funext slot
  by_cases same : slot = offset
  · simp [same, unlinked]
  · simp [same, items slot same]

namespace Layout

variable {page : QueuePage} {maxItems : Nat} {used free : List Nat}

section

variable (layout : page.Layout maxItems used free) {offset : Nat} (member : offset ∈ used)

include layout member

/-- The neighbours of a used item are other used items or end markers. -/
theorem neighbours : ∃ front back, used = front ++ offset :: back ∧
      (isNormalOffset (page.items offset).prev = true → (page.items offset).prev ∈ front) ∧
      (isNormalOffset (page.items offset).next = true → (page.items offset).next ∈ back) := by
  obtain ⟨front, back, rfl⟩ := List.append_of_mem member
  obtain ⟨before, after, beforeMarker, afterMarker, linked⟩ := layout.linked
  obtain ⟨left, _, linkedFront, rfl, prevSlot, linkedBack⟩ := linked_append.mp linked
  refine ⟨front, back, rfl, ?_, ?_⟩
  · intro isNormal
    rw [show (page.items _).prev = left from prevSlot] at isNormal ⊢
    apply linkedFront.last_mem
    rintro rfl
    rw [linkedFront.2, beforeMarker] at isNormal
    cases isNormal
  · intro isNormal
    apply linkedBack.first_mem
    rintro rfl
    rw [show (page.items _).next = after from linkedBack.1, afterMarker] at isNormal
    cases isNormal

theorem prev_used (isNormal : isNormalOffset (page.items offset).prev = true) :
    (page.items offset).prev ∈ used := by
  obtain ⟨front, back, rfl, inFront, -⟩ := layout.neighbours member
  exact List.mem_append_left _ (inFront isNormal)

theorem next_used (isNormal : isNormalOffset (page.items offset).next = true) :
    (page.items offset).next ∈ used := by
  obtain ⟨front, back, rfl, -, inBack⟩ := layout.neighbours member
  exact List.mem_append_right _ (List.mem_cons_of_mem _ (inBack isNormal))

theorem neighbours_apart :
    (isNormalOffset (page.items offset).prev = true → (page.items offset).prev ≠ offset) ∧
      (isNormalOffset (page.items offset).next = true → (page.items offset).next ≠ offset) ∧
      (isNormalOffset (page.items offset).prev = true →
        (page.items offset).prev ≠ (page.items offset).next) := by
  obtain ⟨front, back, rfl, inFront, inBack⟩ := layout.neighbours member
  obtain ⟨-, restNodup, across⟩ := List.nodup_append.mp layout.used_nodup
  refine ⟨?_, ?_, ?_⟩
  · intro isNormal
    exact across _ (inFront isNormal) offset (by simp)
  · intro isNormal same
    exact (List.nodup_cons.mp restNodup).1 (same ▸ inBack isNormal)
  · intro isNormal same
    exact across _ (inFront isNormal) _ (by simp [inBack (same ▸ isNormal)]) same

theorem removeItem_eq : page.removeItem offset =
      ⟨{ page.header with
          head := if page.header.head = offset then (page.items offset).next else page.header.head
          tail := if page.header.tail = offset then (page.items offset).prev else page.header.tail
          freeListHead := offset },
        unlinked page.items offset (page.items offset).prev (page.items offset).next
          page.header.freeListHead⟩ := by
  obtain ⟨prevApart, nextApart, apart⟩ := layout.neighbours_apart member
  by_cases atHead : page.header.head = offset <;> by_cases atTail : page.header.tail = offset <;>
    simp only [removeItem, atHead, atTail, if_true, if_false] <;>
    rw [joinNeighbours_freeItem _ prevApart nextApart apart]

end

/-- Removing a used item keeps the page well formed and pushes its slot on the free list. -/
theorem remove (layout : page.Layout maxItems used free) {front back : List Nat} {offset : Nat}
    (split : used = front ++ offset :: back) :
    (page.removeItem offset).Layout maxItems (front ++ back) (offset :: free) := by
  subst split
  have member : offset ∈ front ++ offset :: back := by simp
  have canonical := layout.removeItem_eq member
  obtain ⟨before, after, beforeMarker, afterMarker, linked⟩ := layout.linked
  have usedNodup := layout.used_nodup
  have shuffled : (front ++ back ++ offset :: free).Perm (front ++ offset :: back ++ free) := by
    simp only [List.append_assoc, List.cons_append]
    exact List.perm_middle.append_left front
  have notRemoved : ∀ slot ∈ front ++ back, slot ≠ offset := by
    rintro slot inside rfl
    rw [List.nodup_middle] at usedNodup
    exact (List.nodup_cons.mp usedNodup).1 inside
  have stillUsed : ∀ slot ∈ front ++ back, slot ∈ front ++ offset :: back := by
    intro slot inside
    simp only [List.mem_append, List.mem_cons] at inside ⊢
    tauto
  have freeApart : ∀ slot ∈ free, slot ≠ offset := by
    rintro slot inside rfl
    exact layout.used_free_apart member inside
  refine ⟨⟨before, after, beforeMarker, afterMarker, ?_⟩, ?_, ?_, ?_,
    shuffled.nodup_iff.mpr layout.nodup, ?_, ?_⟩
  · have unlinkedList : Linked (page.removeItem offset).nextOf (page.removeItem offset).prevOf before
        (if page.header.head = offset then page.nextOf offset else page.header.head) (front ++ back)
        (if page.header.tail = offset then page.prevOf offset else page.header.tail) after := by
      refine linked.remove usedNodup
        (fun inside => layout.marker_apart beforeMarker (List.mem_append_left free inside))
        (fun inside => layout.marker_apart afterMarker (List.mem_append_left free inside)) ?_ ?_
      · intro slot inside
        have isNormal := layout.normal_used (stillUsed slot inside)
        by_cases atPrev : slot = (page.items offset).prev
        · simp [canonical, nextOf, prevOf, unlinked, notRemoved slot inside, ← atPrev, isNormal]
        · simp [canonical, nextOf, prevOf, unlinked, notRemoved slot inside, atPrev]
      · intro slot inside
        have isNormal := layout.normal_used (stillUsed slot inside)
        by_cases atNext : slot = (page.items offset).next
        · simp [canonical, nextOf, prevOf, unlinked, notRemoved slot inside, ← atNext, isNormal]
        · simp [canonical, nextOf, prevOf, unlinked, notRemoved slot inside, atNext]
    rw [canonical] at unlinkedList ⊢
    exact unlinkedList
  · refine (layout.ordered.sublist (by simp)).imp_of_mem ?_
    intro first second firstIn secondIn le
    rw [canonical]
    simpa [unlinked, notRemoved first firstIn, notRemoved second secondIn] using le
  · have restHead : (page.removeItem offset).nextOf offset = page.header.freeListHead := by
      simp [canonical, nextOf, unlinked]
    refine ⟨by rw [canonical], ?_⟩
    rw [restHead]
    refine layout.freeList.congr ?_
    intro slot inside
    have notPrev : ¬ (slot = (page.items offset).prev ∧ isNormalOffset (page.items offset).prev = true) := by
      rintro ⟨rfl, isNormal⟩
      exact layout.used_free_apart (layout.prev_used member isNormal) inside
    simp [canonical, nextOf, unlinked, freeApart slot inside, notPrev]
  · intro slot inside
    rw [canonical]
    rcases List.mem_cons.mp inside with rfl | inFree
    · simp [unlinked]
    · simpa [unlinked, freeApart slot inFree] using layout.freeBlank slot inFree
  · intro slot
    rw [shuffled.mem_iff, layout.partition slot, canonical]
  · rw [canonical]
    exact layout.capacity

end Layout

/-- The primary's page carries invalidation hints that were never logged; nothing else differs. -/
structure HintedFrom (primary standby : QueuePage) : Prop where
  header : primary.header = standby.header
  items : ∀ slot, primary.items slot = standby.items slot ∨
    primary.items slot = { standby.items slot with blkno := invalidBlockNumber }

/-- Replaying an insertion links the logged item between its logged neighbours. -/
theorem xlog_insert_eq (page : QueuePage) (xlrec : QueueModify) (isInsert : xlrec.isInsert = true)
    (prevApart : isNormalOffset xlrec.item.prev = true → xlrec.item.prev ≠ xlrec.offset)
    (nextApart : isNormalOffset xlrec.item.next = true → xlrec.item.next ≠ xlrec.offset)
    (apart : isNormalOffset xlrec.item.prev = true → xlrec.item.prev ≠ xlrec.item.next) :
    page.xlogRecycleQueueModifyPage xlrec = ⟨xlrec.header,
        relinked page.items xlrec.offset xlrec.item.prev xlrec.item.next xlrec.item⟩ := by
  simp only [xlogRecycleQueueModifyPage, isInsert, if_true, modifyItem]
  by_cases left : isNormalOffset xlrec.item.prev <;> by_cases right : isNormalOffset xlrec.item.next <;>
    simp only [left, right, Bool.false_eq_true, if_true, if_false] <;> congr 1 <;> funext slot <;>
    by_cases same : slot = xlrec.offset <;> by_cases atPrev : slot = xlrec.item.prev <;>
    by_cases atNext : slot = xlrec.item.next <;> simp_all [relinked]

/-- Replaying a removal joins the logged neighbours and frees the slot. -/
theorem xlog_remove_eq (page : QueuePage) (xlrec : QueueModify) (isRemove : xlrec.isInsert = false)
    (prevApart : isNormalOffset xlrec.item.prev = true → xlrec.item.prev ≠ xlrec.offset)
    (nextApart : isNormalOffset xlrec.item.next = true → xlrec.item.next ≠ xlrec.offset)
    (apart : isNormalOffset xlrec.item.prev = true → xlrec.item.prev ≠ xlrec.item.next) :
    page.xlogRecycleQueueModifyPage xlrec = ⟨{ xlrec.header with freeListHead := xlrec.offset },
        unlinked page.items xlrec.offset xlrec.item.prev xlrec.item.next xlrec.header.freeListHead⟩ := by
  simp only [xlogRecycleQueueModifyPage, isRemove, Bool.false_eq_true, if_false]
  rw [joinNeighbours_freeItem _ prevApart nextApart apart]
  congr 1
  funext slot
  by_cases same : slot = xlrec.offset
  · simp [unlinked, same, modifyItem]
  · simp [unlinked, same, modifyItem]

section

variable {primary standby : Nat → QueueItem}
  (hinted : ∀ slot, primary slot = standby slot ∨
    primary slot = { standby slot with blkno := invalidBlockNumber })

include hinted

theorem relinked_hinted (offset left right : Nat) (item : QueueItem) (slot : Nat) :
    relinked primary offset left right item slot = relinked standby offset left right item slot ∨
      relinked primary offset left right item slot =
        { relinked standby offset left right item slot with blkno := invalidBlockNumber } := by
  by_cases same : slot = offset
  · simp [relinked, same]
  · rcases hinted slot with equal | equal <;> simp [relinked, same, equal]

theorem unlinked_hinted (offset left right freeListHead slot : Nat) :
    unlinked primary offset left right freeListHead slot =
        unlinked standby offset left right freeListHead slot ∨
      unlinked primary offset left right freeListHead slot =
        { unlinked standby offset left right freeListHead slot with
          blkno := invalidBlockNumber } := by
  by_cases same : slot = offset
  · simp [unlinked, same]
  · rcases hinted slot with equal | equal <;> simp [unlinked, same, equal]

end

namespace Layout

variable {primary : QueuePage} {maxItems : Nat} {used free : List Nat}

/-- The replayed insertion, in the terms in which `Layout.insert` describes the primary's. -/
theorem replay_insert (layout : primary.Layout maxItems used free)
    (space : primary.pageAllocateItem ≠ invalidOffset) (standby : QueuePage) (self blkno xid : Nat) :
    ∃ left right header, primary.insertOnRecycleQueuePage primary.pageAllocateItem blkno xid =
        ⟨header, relinked primary.items primary.pageAllocateItem left right ⟨xid, blkno, left, right⟩⟩ ∧
      standby.xlogRecycleQueueModifyPage (primary.insertRecord self primary.pageAllocateItem blkno xid) =
        ⟨header, relinked standby.items primary.pageAllocateItem left right ⟨xid, blkno, left, right⟩⟩ := by
  obtain ⟨front, back, left, right, rest, rfl, leftUsed, rightUsed, inserted, -⟩ :=
    layout.insert space blkno xid
  obtain ⟨fresh, -, -⟩ := layout.allocate space
  refine ⟨left, right, _, inserted, ?_⟩
  have item : (primary.insertRecord self primary.pageAllocateItem blkno xid).item =
      ⟨xid, blkno, left, right⟩ := by
    simp [insertRecord, logModifyPage, inserted, relinked]
  have offset : (primary.insertRecord self primary.pageAllocateItem blkno xid).offset =
      primary.pageAllocateItem := rfl
  rw [xlog_insert_eq standby _ rfl]
  · rw [item, offset]
    simp only [insertRecord, logModifyPage, inserted]
  · rw [item, offset]
    rintro isNormal rfl
    exact fresh (List.mem_append_left back (leftUsed isNormal))
  · rw [item, offset]
    rintro isNormal rfl
    exact fresh (List.mem_append_right front (rightUsed isNormal))
  · rw [item]
    intro (isNormal : isNormalOffset left = true) (same : left = right)
    subst same
    exact (List.nodup_append.mp layout.used_nodup).2.2 left (leftUsed isNormal) left (rightUsed isNormal) rfl

/-- The replayed removal, in the terms in which `removeItem_eq` describes the primary's. -/
theorem replay_remove (layout : primary.Layout maxItems used free) {offset : Nat}
    (member : offset ∈ used) (standby : QueuePage) (self : Nat) :
    standby.xlogRecycleQueueModifyPage (primary.removeRecord self offset) =
      ⟨(primary.removeItem offset).header,
        unlinked standby.items offset (primary.items offset).prev (primary.items offset).next
          primary.header.freeListHead⟩ := by
  obtain ⟨prevApart, nextApart, apart⟩ := layout.neighbours_apart member
  rw [xlog_remove_eq standby _ rfl prevApart nextApart apart]
  simp [removeRecord, logModifyPage, layout.removeItem_eq member, unlinked]

end Layout

/-- Replay agrees with the primary on every insertion and removal: header, links and contents of
all items are the same, up to the invalidation hints the primary's page already carried. -/
theorem xlogRecycleQueueModifyPage_agrees {primary standby : QueuePage} {maxItems : Nat}
    {used free : List Nat} (layout : primary.Layout maxItems used free)
    (hinted : primary.HintedFrom standby) (self : Nat) :
    (∀ blkno xid, primary.pageAllocateItem ≠ invalidOffset →
      (primary.insertOnRecycleQueuePage primary.pageAllocateItem blkno xid).HintedFrom
        (standby.xlogRecycleQueueModifyPage (primary.insertRecord self primary.pageAllocateItem blkno xid)) ∧
      (standby = primary → standby.xlogRecycleQueueModifyPage
          (primary.insertRecord self primary.pageAllocateItem blkno xid) =
        primary.insertOnRecycleQueuePage primary.pageAllocateItem blkno xid)) ∧
    (∀ offset ∈ used, (primary.removeItem offset).HintedFrom
        (standby.xlogRecycleQueueModifyPage (primary.removeRecord self offset)) ∧
      (standby = primary → standby.xlogRecycleQueueModifyPage (primary.removeRecord self offset) =
          primary.removeItem offset)) := by
  refine ⟨?_, ?_⟩
  · intro blkno xid space
    obtain ⟨left, right, header, inserted, replayed⟩ :=
      layout.replay_insert space standby self blkno xid
    rw [inserted, replayed]
    refine ⟨⟨rfl, fun slot => relinked_hinted hinted.items _ _ _ _ slot⟩, ?_⟩
    rintro rfl
    rfl
  · intro offset member
    rw [layout.replay_remove member standby self]
    refine ⟨⟨rfl, ?_⟩, ?_⟩
    · intro slot
      rw [layout.removeItem_eq member]
      exact unlinked_hinted hinted.items _ _ _ _ slot
    · rintro rfl
      rw [layout.removeItem_eq member]

/-- On a meta page with one item that the standby still sees as block 7. -/
theorem xlogRecycleQueueModifyPage_agrees_single :
    let header : QueueHeader := ⟨true, true, 506, 506, 506, 65535, 4, 2⟩
    let primary : QueuePage := ⟨header, fun _ => ⟨100, invalidBlockNumber, 65535, 65535⟩⟩
    let standby : QueuePage := ⟨header, fun _ => ⟨100, 7, 65535, 65535⟩⟩
    primary.HintedFrom standby ∧ (primary.insertOnRecycleQueuePage 505 8 200).HintedFrom
        (standby.xlogRecycleQueueModifyPage (primary.insertRecord 0 505 8 200)) ∧
      (primary.removeItem 506).HintedFrom
        (standby.xlogRecycleQueueModifyPage (primary.removeRecord 0 506)) := by
  intro header primary standby
  have hinted : primary.HintedFrom standby := ⟨rfl, fun _ => Or.inr rfl⟩
  have layout : primary.Layout 507 [506] [] := by
    refine ⟨⟨65535, 65535, rfl, rfl, rfl, rfl, rfl, rfl⟩, by simp, rfl, by simp, by simp, ?_,
      by decide⟩
    intro slot
    simp only [List.append_nil, List.mem_singleton, show primary.header.freeItems = 506 from rfl]
    omega
  have agrees := xlogRecycleQueueModifyPage_agrees layout hinted 0
  exact ⟨hinted, (agrees.1 8 200 (by decide)).1, (agrees.2 506 (by simp)).1⟩

end QueuePage

end OpenGauss.UBTree
