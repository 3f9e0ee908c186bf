import OpenGauss.UBTree.QueuePage

namespace OpenGauss.UBTree

open Lib

namespace QueuePage

/-- Items after linking `item` at `offset` between `left` and `right`, where an end marker has no
item to update. -/
def relinked (items : Nat → QueueItem) (offset left right : Nat) (item : QueueItem) :
    Nat → QueueItem := fun slot =>
  if slot = offset then item
  else
    { items slot with
      next := if slot = left ∧ isNormalOffset left then offset else (items slot).next
      prev := if slot = right ∧ isNormalOffset right then offset else (items slot).prev }

/-- Linking a slot between adjacent parts of the used list extends the list by the slot. -/
theorem relinked_usedList {page : QueuePage} (front back : List Nat) (item : QueueItem)
    {before after left right offset : Nat}
    (beforeMarker : isNormalOffset before = false) (afterMarker : isNormalOffset after = false)
    (linkedFront : Linked page.nextOf page.prevOf before page.header.head front left right)
    (linkedBack : Linked page.nextOf page.prevOf left right back page.header.tail after)
    (normal : ∀ slot ∈ front ++ back, isNormalOffset slot = true)
    (nodup : (front ++ back).Nodup) (fresh : offset ∉ front ++ back)
    (itemPrev : item.prev = left) (itemNext : item.next = right) :
    UsedList
      ⟨{ page.header with
          head := if front = [] then offset else page.header.head
          tail := if back = [] then offset else page.header.tail },
        relinked page.items offset left right item⟩ (front ++ offset :: back) := by
  have parts := List.nodup_append.mp nodup
  have leftApart : left ∉ back := by
    intro inside
    by_cases empty : front = []
    · subst empty
      rw [← linkedFront.2, normal left (by simp [inside])] at beforeMarker
      cases beforeMarker
    · exact parts.2.2 left (linkedFront.last_mem empty) left inside rfl
  have rightApart : right ∉ front := by
    intro inside
    by_cases empty : back = []
    · subst empty
      rw [← linkedBack.1, normal right (by simp [inside])] at afterMarker
      cases afterMarker
    · exact parts.2.2 right inside right (linkedBack.first_mem empty) rfl
  have apart : ∀ other ∈ front ++ back, other ≠ offset := by
    rintro other inside rfl
    exact fresh inside
  refine ⟨before, after, beforeMarker, afterMarker, ?_⟩
  refine linkedFront.insert linkedBack parts.1 parts.2.1 leftApart rightApart ?_ ?_ ?_ ?_
  · intro other inside
    by_cases same : other = left
    · subst same
      simp [nextOf, relinked, apart other inside, normal other inside]
    · simp [nextOf, relinked, apart other inside, same]
  · intro other inside
    by_cases same : other = right
    · subst same
      simp [prevOf, relinked, apart other inside, normal other inside]
    · simp [prevOf, relinked, apart other inside, same]
  · simp [nextOf, relinked, itemNext]
  · simp [prevOf, relinked, itemPrev]

/-- The walk stops at the last item whose xid does not follow the new one. -/
theorem findInsertLoc_spec {page : QueuePage} {xid before first : Nat} :
    ∀ (fuel : Nat) (front : List Nat) (curOffset after : Nat),
      Linked page.nextOf page.prevOf before first (front ++ [curOffset]) curOffset after →
      (page.items first).xid < xid → front.length < fuel →
      ∃ left mid right, front ++ [curOffset] = left ++ mid :: right ∧
        findInsertLoc page.items xid fuel curOffset = mid ∧ (page.items mid).xid ≤ xid ∧
        ∀ slot ∈ right, xid < (page.items slot).xid := by
  intro fuel
  induction fuel with
  | zero =>
    intro front curOffset after linked above short
    omega
  | succ fuel ih =>
    intro front curOffset after linked above short
    by_cases follows : xid < (page.items curOffset).xid
    · rcases List.eq_nil_or_concat' front with rfl | ⟨shorter, previous, rfl⟩
      · -- The head precedes the new xid, so the walk cannot pass it.
        obtain ⟨rfl, -⟩ := linked
        omega
      · obtain ⟨left, right, linkedFront, rfl, back, -⟩ := linked_append.mp linked
        obtain rfl := linkedFront.last_eq
        obtain ⟨front, mid, rest, split, found, below, beyond⟩ :=
          ih shorter left right linkedFront above (by simpa using short)
        refine ⟨front, mid, rest ++ [right], ?_, ?_, below, ?_⟩
        · simp [split]
        · simp only [findInsertLoc, follows, if_true]
          rw [show (page.items right).prev = left from back]
          exact found
        · intro slot member
          rcases List.mem_append.mp member with inside | last
          · exact beyond slot inside
          · rwa [List.mem_singleton.mp last]
    · exact ⟨front, curOffset, [], by simp, by simp [findInsertLoc, follows], by omega, by simp⟩

/-- Everything the second part of the insertion can do: the slot is linked between `left` and
`right`, which are its neighbours in xid order or the end markers of the page. -/
theorem placeItem_spec {page : QueuePage} {used : List Nat} {offset : Nat} (xid : Nat)
    (list : page.UsedList used) (normal : ∀ slot ∈ used, isNormalOffset slot = true)
    (nodup : used.Nodup) (fits : used.length ≤ ubtRecycleMaxItems) (fresh : offset ∉ used)
    (ordered : used.Pairwise fun left right => (page.items left).xid ≤ (page.items right).xid) :
    ∃ front back left right, used = front ++ back ∧ (∀ slot ∈ front, (page.items slot).xid ≤ xid) ∧
      (∀ slot ∈ back, xid ≤ (page.items slot).xid) ∧
      (isNormalOffset left = true → left ∈ front) ∧ (isNormalOffset right = true → right ∈ back) ∧
      page.placeItem offset xid =
        ⟨{ page.header with
            head := if front = [] then offset else page.header.head
            tail := if back = [] then offset else page.header.tail },
          relinked page.items offset left right { page.items offset with prev := left, next := right }⟩ ∧
      (page.placeItem offset xid).UsedList (front ++ offset :: back) := by
  obtain ⟨before, after, beforeMarker, afterMarker, linked⟩ := list
  by_cases empty : used = []
  · subst empty
    have marker : isNormalOffset page.header.head = false := by rw [linked.1, afterMarker]
    have placed : page.placeItem offset xid = ⟨{ page.header with head := offset, tail := offset },
          relinked page.items offset page.header.head invalidOffset
            { page.items offset with prev := page.header.head, next := invalidOffset }⟩ := by
      simp only [placeItem, marker, Bool.not_false, if_true, modifyItem]
      congr 1
      funext slot
      by_cases same : slot = offset
      · simp [same, relinked]
      · simp [same, relinked, marker, not_normal_invalidOffset]
    refine ⟨[], [], page.header.head, invalidOffset, rfl, by simp, by simp, by simp [marker],
      by simp [not_normal_invalidOffset], placed, ?_⟩
    rw [placed]
    exact ⟨page.header.head, invalidOffset, marker, rfl, rfl, by simp [prevOf, relinked],
      by simp [nextOf, relinked], rfl⟩
  · have headUsed := linked.first_mem empty
    have headNormal := normal _ headUsed
    have headFresh : page.header.head ≠ offset := by
      rintro same
      exact fresh (same ▸ headUsed)
    by_cases front : xid ≤ (page.items page.header.head).xid
    · have prevHead : (page.items page.header.head).prev = before := linked.prev_first empty
      have placed : page.placeItem offset xid = ⟨{ page.header with head := offset },
            relinked page.items offset before page.header.head
              { page.items offset with prev := before, next := page.header.head }⟩ := by
        simp only [placeItem, headNormal, Bool.not_true, Bool.false_eq_true, if_false, front, if_true,
          modifyItem, prevHead]
        congr 1
        funext slot
        by_cases same : slot = offset
        · simp [same, relinked, headFresh.symm]
        · by_cases atHead : slot = page.header.head
          · subst atHead
            simp [same, relinked, headNormal, beforeMarker]
          · simp [same, relinked, atHead, beforeMarker]
      have above : ∀ slot ∈ used, xid ≤ (page.items slot).xid := by
        cases used with
        | nil => simp
        | cons first rest =>
          obtain ⟨same, -⟩ := linked
          rw [same] at front
          intro slot member
          rcases List.mem_cons.mp member with rfl | inside
          · exact front
          · exact front.trans ((List.pairwise_cons.mp ordered).1 slot inside)
      refine ⟨[], used, before, page.header.head, rfl, by simp, above, by simp [beforeMarker],
        fun _ => headUsed, ?_, ?_⟩
      · simp [placed, empty]
      · have extended := relinked_usedList [] used
          { page.items offset with prev := before, next := page.header.head }
          beforeMarker afterMarker ⟨rfl, rfl⟩ linked normal nodup fresh rfl rfl
        simpa [placed, empty] using extended
    · obtain ⟨shorter, tail, rfl⟩ := (List.eq_nil_or_concat' used).resolve_left empty
      have atTail := linked.last_eq
      rw [atTail] at linked
      obtain ⟨left, mid, right, split, found, below, beyond⟩ :=
        findInsertLoc_spec ubtRecycleMaxItems shorter tail after linked (Nat.lt_of_not_le front)
          (by simpa using fits)
      rw [split] at linked normal nodup fresh ordered ⊢
      rw [show left ++ mid :: right = (left ++ [mid]) ++ right by simp] at linked normal nodup fresh
      obtain ⟨last, following, linkedFront, linkedBack⟩ := linked_append.mp linked
      obtain rfl := linkedFront.last_eq
      have nextMid : (page.items last).next = following := linkedFront.next_last (by simp)
      have midNormal := normal last (by simp)
      have midFresh : last ≠ offset := by
        rintro rfl
        exact fresh (by simp)
      have rightNormal : isNormalOffset following = true ↔ right ≠ [] := by
        constructor
        · rintro isNormal rfl
          rw [linkedBack.1, afterMarker] at isNormal
          cases isNormal
        · intro nonempty
          exact normal following (by simp [linkedBack.first_mem nonempty])
      have followingFresh : isNormalOffset following = true → following ≠ offset := by
        rintro isNormal rfl
        exact fresh (by simp [linkedBack.first_mem (rightNormal.mp isNormal)])
      have placed : page.placeItem offset xid =
          ⟨{ page.header with tail := if right = [] then offset else page.header.tail },
            relinked page.items offset last following
              { page.items offset with prev := last, next := following }⟩ := by
        simp only [placeItem, headNormal, Bool.not_true, Bool.false_eq_true, if_false, front, atTail,
          found, nextMid, modifyItem]
        by_cases nonempty : right = []
        · have marker : isNormalOffset following = false := by
            simpa [nonempty] using rightNormal.not
          simp only [marker, Bool.false_eq_true, if_false, nonempty, if_true]
          congr 1
          funext slot
          by_cases same : slot = offset
          · simp [same, relinked, midFresh.symm]
          · by_cases atMid : slot = last
            · subst atMid
              simp [same, relinked, midNormal, marker]
            · simp [same, relinked, atMid, marker]
        · have isNormal := rightNormal.mpr nonempty
          have different : last ≠ following := by
            rintro rfl
            exact (List.nodup_append.mp nodup).2.2 last (by simp) last
              (linkedBack.first_mem nonempty) rfl
          simp only [isNormal, if_true, nonempty, if_false]
          congr 1
          · rw [← atTail]
          · funext slot
            by_cases same : slot = offset
            · simp [same, relinked, midFresh.symm, (followingFresh isNormal).symm]
            · by_cases atMid : slot = last
              · subst atMid
                simp [same, relinked, midNormal, different]
              · by_cases atNext : slot = following
                · subst atNext
                  simp [same, relinked, atMid, isNormal]
                · simp [same, relinked, atMid, atNext]
      refine ⟨left ++ [last], right, last, following, by simp, ?_, ?_, by simp, ?_, ?_, ?_⟩
      · intro slot member
        rcases List.mem_append.mp member with inside | same
        · exact ((List.pairwise_append.mp ordered).2.2 slot inside last (by simp)).trans below
        · rwa [List.mem_singleton.mp same]
      · intro slot member
        exact (beyond slot member).le
      · intro isNormal
        exact linkedBack.first_mem (rightNormal.mp isNormal)
      · simp [placed]
      · have extended := relinked_usedList (left ++ [last]) right
          { page.items offset with prev := last, next := following }
          beforeMarker afterMarker linkedFront (atTail ▸ linkedBack) normal nodup fresh rfl rfl
        simpa [placed] using extended

theorem takeItem_eq (page : QueuePage) (offset blkno xid : Nat) : page.takeItem offset blkno xid =
      ⟨{ page.header with
          freeListHead := if page.header.freeListHead = offset then (page.items offset).next
            else page.header.freeListHead
          freeItems := if page.header.freeItems = offset + 1 then page.header.freeItems - 1
            else page.header.freeItems },
        Function.update page.items offset { page.items offset with blkno, xid }⟩ := by
  unfold takeItem modifyItem
  split_ifs <;> simp_all

namespace Layout

variable {page : QueuePage} {maxItems : Nat} {used free : List Nat}

variable (layout : page.Layout maxItems used free)
include layout

theorem used_length_le : used.length ≤ ubtRecycleMaxItems := by
  have inRange : used ⊆ List.range maxItems := by
    intro slot member
    rw [List.mem_range]
    exact ((layout.partition slot).mp (List.mem_append_left free member)).2
  have bound := (layout.used_nodup.subperm inRange).length_le
  rw [List.length_range] at bound
  exact bound.trans layout.capacity.2

/-- The page after the first part of an insertion, seen from the used list. -/
private theorem takeItem_usedList {offset : Nat}
    (fresh : offset ∉ used) (blkno xid : Nat) :
    (page.takeItem offset blkno xid).UsedList used ∧
      ∀ slot ∈ used, (page.takeItem offset blkno xid).items slot = page.items slot := by
  have same : ∀ slot ∈ used, (page.takeItem offset blkno xid).items slot = page.items slot := by
    intro slot member
    rw [takeItem_eq]
    exact Function.update_of_ne (by rintro rfl; exact fresh member) _ _
  obtain ⟨before, after, beforeMarker, afterMarker, linked⟩ := layout.linked
  refine ⟨⟨before, after, beforeMarker, afterMarker, ?_⟩, same⟩
  have kept := linked.congr
    (fun slot member => show ((page.takeItem offset blkno xid).items slot).next = _ by
      rw [same slot member]; rfl)
    (fun slot member => show ((page.takeItem offset blkno xid).items slot).prev = _ by
      rw [same slot member]; rfl)
  rw [takeItem_eq] at kept ⊢
  exact kept

/-- The pools after a slot was taken from them. -/
private theorem take_pools (space : page.pageAllocateItem ≠ invalidOffset) (blkno xid : Nat) :
    ∃ rest, (∀ slot ∈ rest, slot ∈ free ∧ slot ≠ page.pageAllocateItem) ∧ Threaded page.nextOf
        (page.takeItem page.pageAllocateItem blkno xid).header.freeListHead rest invalidOffset ∧
      (page.pageAllocateItem :: (used ++ rest)).Nodup ∧
      (∀ slot, slot ∈ page.pageAllocateItem :: (used ++ rest) ↔
        (page.takeItem page.pageAllocateItem blkno xid).header.freeItems ≤ slot ∧ slot < maxItems) ∧
      (page.takeItem page.pageAllocateItem blkno xid).header.freeItems ≤ page.header.freeItems := by
  obtain ⟨fresh, inside, pool⟩ := layout.allocate space
  generalize page.pageAllocateItem = offset at *
  rw [takeItem_eq]
  rcases pool with ⟨unused, rfl, notFree⟩ | ⟨exhausted, rest, rfl⟩
  · have headKept : page.header.freeListHead ≠ page.header.freeItems - 1 := by
      intro same
      have chain := layout.freeList
      cases free with
      | nil => exact space (same ▸ chain)
      | cons first tail =>
        rw [chain.1] at same
        exact notFree (by simp [same])
    refine ⟨free, ?_, ?_, ?_, ?_, ?_⟩
    · intro slot member
      exact ⟨member, by rintro rfl; exact notFree member⟩
    · simpa [headKept] using layout.freeList
    · exact List.nodup_cons.mpr ⟨by simp [fresh, notFree], layout.nodup⟩
    · intro slot
      have counted : page.header.freeItems = page.header.freeItems - 1 + 1 := by omega
      have := layout.partition slot
      have := layout.capacity.1
      simp only [List.mem_cons, ← counted, if_true]
      grind
    · grind
  · have chain := layout.freeList
    refine ⟨rest, ?_, ?_, ?_, ?_, ?_⟩
    · intro slot member
      refine ⟨by simp [member], ?_⟩
      rintro rfl
      exact (List.nodup_cons.mp layout.free_nodup).1 member
    · simp only [chain.1, if_true]
      exact chain.2
    · have nodup := layout.nodup
      rw [List.nodup_middle] at nodup
      exact nodup
    · intro slot
      have member := layout.partition slot
      simp only [exhausted] at member ⊢
      simp only [List.mem_append, List.mem_cons] at member ⊢
      grind
    · grind

/-- What an insertion on a well-formed page with space does: the slot is linked between its
neighbours in xid order, everything else keeps its content, and the page stays well formed. -/
theorem insert (space : page.pageAllocateItem ≠ invalidOffset) (blkno xid : Nat) :
    ∃ front back left right rest, used = front ++ back ∧
      (isNormalOffset left = true → left ∈ front) ∧ (isNormalOffset right = true → right ∈ back) ∧
      page.insertOnRecycleQueuePage page.pageAllocateItem blkno xid =
        ⟨{ (page.takeItem page.pageAllocateItem blkno xid).header with
            head := if front = [] then page.pageAllocateItem else page.header.head
            tail := if back = [] then page.pageAllocateItem else page.header.tail },
          relinked page.items page.pageAllocateItem left right ⟨xid, blkno, left, right⟩⟩ ∧
      (page.insertOnRecycleQueuePage page.pageAllocateItem blkno xid).Layout maxItems
        (front ++ page.pageAllocateItem :: back) rest := by
  obtain ⟨fresh, -, -⟩ := layout.allocate space
  obtain ⟨rest, restFree, threaded, nodup, partition, fewer⟩ := layout.take_pools space blkno xid
  obtain ⟨list, same⟩ := layout.takeItem_usedList fresh blkno xid
  have ordered : used.Pairwise fun left right =>
      ((page.takeItem page.pageAllocateItem blkno xid).items left).xid ≤
        ((page.takeItem page.pageAllocateItem blkno xid).items right).xid := by
    refine layout.ordered.imp_of_mem ?_
    intro left right leftUsed rightUsed le
    rwa [same left leftUsed, same right rightUsed]
  obtain ⟨front, back, left, right, rfl, below, above, leftUsed, rightUsed, placed, newList⟩ :=
    placeItem_spec xid list (fun slot member => layout.normal_used member) layout.used_nodup
      layout.used_length_le fresh ordered
  have canonical : page.insertOnRecycleQueuePage page.pageAllocateItem blkno xid =
      ⟨{ (page.takeItem page.pageAllocateItem blkno xid).header with
          head := if front = [] then page.pageAllocateItem else page.header.head
          tail := if back = [] then page.pageAllocateItem else page.header.tail },
        relinked page.items page.pageAllocateItem left right ⟨xid, blkno, left, right⟩⟩ := by
    rw [insertOnRecycleQueuePage, placed, takeItem_eq]
    congr 1
    funext slot
    by_cases atSlot : slot = page.pageAllocateItem
    · simp [relinked, atSlot]
    · simp [relinked, atSlot]
  have xidAt (slot : Nat) (member : slot ∈ front ++ back) :
      ((page.insertOnRecycleQueuePage page.pageAllocateItem blkno xid).items slot).xid =
        (page.items slot).xid := by
    rw [canonical]
    have : slot ≠ page.pageAllocateItem := by
      rintro rfl
      exact fresh member
    simp [relinked, this]
  have xidNew : ((page.insertOnRecycleQueuePage page.pageAllocateItem blkno xid).items
      page.pageAllocateItem).xid = xid := by
    simp [canonical, relinked]
  have shuffled : ((front ++ page.pageAllocateItem :: back) ++ rest).Perm
      (page.pageAllocateItem :: (front ++ back ++ rest)) := by
    simp
  refine ⟨front, back, left, right, rest, rfl, leftUsed, rightUsed, canonical, newList, ?_, ?_, ?_,
    shuffled.nodup_iff.mpr nodup, ?_, ?_⟩
  · obtain ⟨frontOrdered, backOrdered, across⟩ := List.pairwise_append.mp layout.ordered
    refine List.pairwise_append.mpr ⟨?_, List.pairwise_cons.mpr ⟨?_, ?_⟩, ?_⟩
    · refine frontOrdered.imp_of_mem ?_
      intro first second firstIn secondIn le
      rwa [xidAt first (by simp [firstIn]), xidAt second (by simp [secondIn])]
    · intro slot member
      rw [xidNew, xidAt slot (by simp [member]), ← same slot (by simp [member])]
      exact above slot member
    · refine backOrdered.imp_of_mem ?_
      intro first second firstIn secondIn le
      rwa [xidAt first (by simp [firstIn]), xidAt second (by simp [secondIn])]
    · intro first firstIn second secondIn
      rw [xidAt first (by simp [firstIn])]
      rcases List.mem_cons.mp secondIn with rfl | inBack
      · rw [xidNew, ← same first (by simp [firstIn])]
        exact below first firstIn
      · rw [xidAt second (by simp [inBack])]
        exact across first firstIn second inBack
  · rw [canonical]
    refine threaded.congr ?_
    intro slot member
    obtain ⟨inFree, different⟩ := restFree slot member
    have notLeft : ¬ (slot = left ∧ isNormalOffset left = true) := by
      rintro ⟨rfl, isNormal⟩
      exact layout.used_free_apart (by simp [leftUsed isNormal]) inFree
    simp [nextOf, relinked, different, notLeft]
  · intro slot member
    obtain ⟨inFree, different⟩ := restFree slot member
    rw [canonical]
    simpa [relinked, different] using layout.freeBlank slot inFree
  · intro slot
    rw [shuffled.mem_iff, partition slot, canonical]
  · rw [canonical]
    exact ⟨fewer.trans layout.capacity.1, layout.capacity.2⟩

end Layout

end QueuePage

end OpenGauss.UBTree
