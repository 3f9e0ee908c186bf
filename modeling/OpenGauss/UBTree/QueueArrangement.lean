import OpenGauss.UBTree.QueueScan

namespace OpenGauss.UBTree

open Lib

def nextBlknoOf (pages : QueuePages) (blkno : Nat) : Nat := (pages blkno).header.nextBlkno

def prevBlknoOf (pages : QueuePages) (blkno : Nat) : Nat := (pages blkno).header.prevBlkno

/-- The pages of a queue, read from the page after the tail: first the pages that are not in use,
then the live pages from the head page to the tail page. -/
structure Arranged (pages : QueuePages) (spare live : List Nat) : Prop where
  nonempty : live ≠ []
  nodup : (spare ++ live).Nodup
  several : 2 ≤ (spare ++ live).length
  ring : Ring (nextBlknoOf pages) (prevBlknoOf pages) (spare ++ live)
  headFlag : ∀ blkno ∈ spare ++ live, (pages blkno).header.headPage = true ↔ live.head? = some blkno
  tailFlag : ∀ blkno ∈ spare ++ live, (pages blkno).header.tailPage = true ↔ live.getLast? = some blkno
  wellFormed : ∀ blkno ∈ spare ++ live, (pages blkno).WellFormed (blockGetMaxItems blkno)
  spareEmpty : ∀ blkno ∈ spare, (pages blkno).itemOffsets = []

/-- The index blocks recorded on the live pages. -/
def heldOn (pages : QueuePages) (live : List Nat) : Multiset Nat :=
  (live.map fun blkno => ((pages blkno).heldBlocks : Multiset Nat)).sum

theorem heldOn_append (pages : QueuePages) (front back : List Nat) :
    heldOn pages (front ++ back) = heldOn pages front + heldOn pages back := by
  simp [heldOn]

theorem heldOn_cons (pages : QueuePages) (blkno : Nat) (rest : List Nat) :
    heldOn pages (blkno :: rest) = (pages blkno).heldBlocks + heldOn pages rest := by
  simp [heldOn]

variable {live : List Nat} {pages : QueuePages} {blkno : Nat}

theorem heldOn_congr {pages next : QueuePages}
    (same : ∀ blkno ∈ live, (next blkno).heldBlocks = (pages blkno).heldBlocks) :
    heldOn next live = heldOn pages live := by
  unfold heldOn
  congr 1
  exact List.map_congr_left (fun blkno inside => by rw [same blkno inside])

theorem heldBlocks_eq_nil {page : QueuePage} (empty : page.itemOffsets = []) : page.heldBlocks = [] := by
  simp [QueuePage.heldBlocks, empty]

theorem modifyPage_self (pages : QueuePages) (blkno : Nat) (change : QueuePage → QueuePage) :
    modifyPage pages blkno change blkno = change (pages blkno) := by
  simp [modifyPage]

theorem modifyPage_of_ne {blkno other : Nat} (different : other ≠ blkno)
    (change : QueuePage → QueuePage) : modifyPage pages blkno change other = pages other := by
  simp [modifyPage, different]

theorem heldOn_modify_outside (outside : blkno ∉ live) (change : QueuePage → QueuePage) :
    heldOn (modifyPage pages blkno change) live = heldOn pages live := by
  refine heldOn_congr ?_
  intro other inside
  rw [modifyPage_of_ne]
  rintro rfl
  exact outside inside

/-- The contribution of one live page to the record of the queue. -/
theorem heldOn_modify (pages : QueuePages) (nodup : live.Nodup) (member : blkno ∈ live) :
    ∃ others, heldOn pages live = (pages blkno).heldBlocks + others ∧
      ∀ change, heldOn (modifyPage pages blkno change) live =
        (change (pages blkno)).heldBlocks + others := by
  obtain ⟨front, back, rfl⟩ := List.append_of_mem member
  obtain ⟨-, backNodup, across⟩ := List.nodup_append.mp nodup
  have notFront : blkno ∉ front := fun inside => across blkno inside blkno (by simp) rfl
  have notBack : blkno ∉ back := (List.nodup_cons.mp backNodup).1
  refine ⟨heldOn pages front + heldOn pages back, ?_, ?_⟩
  · rw [heldOn_append, heldOn_cons]
    abel
  · intro change
    rw [heldOn_append, heldOn_cons, modifyPage_self, heldOn_modify_outside notFront,
      heldOn_modify_outside notBack]
    abel

namespace QueuePage

theorem leftPage_endpoints (page : QueuePage) (isHead : Bool) :
    (page.changeEndpointLeftPage isHead).endpoints =
      (page.header.headPage && !isHead, page.header.tailPage && isHead, page.header.prevBlkno,
        page.header.nextBlkno) := by
  cases isHead <;> simp [changeEndpointLeftPage, endpoints, modifyItem]

theorem rightPage_endpoints (page : QueuePage) (isHead : Bool) :
    (page.changeEndpointRightPage isHead).endpoints =
      (page.header.headPage || isHead, page.header.tailPage || !isHead, page.header.prevBlkno,
        page.header.nextBlkno) := by
  cases isHead
  · simp [changeEndpointRightPage, endpoints]
  · by_cases normal : isNormalOffset page.header.head <;>
      simp [changeEndpointRightPage, endpoints, modifyItem, normal]

theorem WellFormed.sameItems_refl {page : QueuePage} {maxItems : Nat}
    (wellFormed : page.WellFormed maxItems) : page.SameItems page maxItems :=
  ⟨wellFormed, rfl, rfl, rfl⟩

end QueuePage

theorem initRecycleQueuePage_layout (blkno prevBlkno nextBlkno : Nat) :
    (initRecycleQueuePage blkno prevBlkno nextBlkno).Layout (blockGetMaxItems blkno) [] [] where
  linked := ⟨invalidOffset, invalidOffset, rfl, rfl, rfl, rfl⟩
  ordered := List.Pairwise.nil
  freeList := rfl
  freeBlank := by simp
  nodup := by simp
  partition slot := by
    simp only [initRecycleQueuePage, List.append_nil, List.not_mem_nil, false_iff]
    omega
  capacity := ⟨le_rfl, blockGetMaxItems_le blkno⟩

section ChangeEndpoint

variable {pages : QueuePages} {buf nextBuf : Nat} {isHead : Bool}

theorem changeEndpoint_left (different : buf ≠ nextBuf) :
    recycleQueueChangeEndpoint pages buf nextBuf isHead buf = (pages buf).changeEndpointLeftPage isHead := by
  rw [recycleQueueChangeEndpoint, modifyPage_of_ne different, modifyPage_self]

theorem changeEndpoint_right (different : buf ≠ nextBuf) :
    recycleQueueChangeEndpoint pages buf nextBuf isHead nextBuf =
      (pages nextBuf).changeEndpointRightPage isHead := by
  rw [recycleQueueChangeEndpoint, modifyPage_self, modifyPage_of_ne different.symm]

theorem changeEndpoint_other {blkno : Nat} (notLeft : blkno ≠ buf) (notRight : blkno ≠ nextBuf) :
    recycleQueueChangeEndpoint pages buf nextBuf isHead blkno = pages blkno := by
  rw [recycleQueueChangeEndpoint, modifyPage_of_ne notRight, modifyPage_of_ne notLeft]

/-- An endpoint change touches no page link, and the flags only of its two pages. -/
theorem changeEndpoint_endpoints (pages : QueuePages) (isHead : Bool) (different : buf ≠ nextBuf)
    (blkno : Nat) :
    (recycleQueueChangeEndpoint pages buf nextBuf isHead blkno).endpoints = (if isHead then
          if blkno = buf then false else if blkno = nextBuf then true
          else (pages blkno).header.headPage
        else (pages blkno).header.headPage,
        if isHead then (pages blkno).header.tailPage
        else if blkno = buf then false else if blkno = nextBuf then true
          else (pages blkno).header.tailPage,
        (pages blkno).header.prevBlkno, (pages blkno).header.nextBlkno) := by
  by_cases left : blkno = buf
  · subst left
    rw [changeEndpoint_left different, QueuePage.leftPage_endpoints]
    cases isHead <;> simp
  · by_cases right : blkno = nextBuf
    · subst right
      rw [changeEndpoint_right different, QueuePage.rightPage_endpoints]
      cases isHead <;> simp [left]
    · rw [changeEndpoint_other left right]
      cases isHead <;> simp [QueuePage.endpoints, left, right]

end ChangeEndpoint

namespace Arranged

variable {pages next : QueuePages} {spare live : List Nat}

section

variable (arranged : Arranged pages spare live)

include arranged

/-- A new state of the pages with the same ring and the same flags. -/
theorem congr (endpoints : ∀ blkno ∈ spare ++ live, (next blkno).endpoints = (pages blkno).endpoints)
    (wellFormed : ∀ blkno ∈ spare ++ live, (next blkno).WellFormed (blockGetMaxItems blkno))
    (spareEmpty : ∀ blkno ∈ spare, (next blkno).itemOffsets = []) : Arranged next spare live := by
  have fields : ∀ blkno ∈ spare ++ live, (next blkno).header.headPage = (pages blkno).header.headPage ∧
      (next blkno).header.tailPage = (pages blkno).header.tailPage ∧
      (next blkno).header.prevBlkno = (pages blkno).header.prevBlkno ∧
      (next blkno).header.nextBlkno = (pages blkno).header.nextBlkno := by
    intro blkno inside
    simpa [QueuePage.endpoints] using endpoints blkno inside
  refine ⟨arranged.nonempty, arranged.nodup, arranged.several, ?_, ?_, ?_, wellFormed, spareEmpty⟩
  · exact arranged.ring.congr (fun blkno inside => (fields blkno inside).2.2.2)
      (fun blkno inside => (fields blkno inside).2.2.1)
  · intro blkno inside
    rw [(fields blkno inside).1]
    exact arranged.headFlag blkno inside
  · intro blkno inside
    rw [(fields blkno inside).2.1]
    exact arranged.tailFlag blkno inside

theorem modify {blkno : Nat} (change : QueuePage → QueuePage)
    (endpoints : (change (pages blkno)).endpoints = (pages blkno).endpoints)
    (wellFormed : (change (pages blkno)).WellFormed (blockGetMaxItems blkno))
    (live? : blkno ∈ live ∨ (change (pages blkno)).itemOffsets = []) :
    Arranged (modifyPage pages blkno change) spare live := by
  refine arranged.congr ?_ ?_ ?_
  · intro other inside
    by_cases same : other = blkno
    · rw [same, modifyPage_self, endpoints]
    · rw [modifyPage_of_ne same]
  · intro other inside
    by_cases same : other = blkno
    · rw [same, modifyPage_self]
      exact wellFormed
    · rw [modifyPage_of_ne same]
      exact arranged.wellFormed other inside
  · intro other inside
    by_cases same : other = blkno
    · subst same
      rw [modifyPage_self]
      rcases live? with inLive | empty
      · exact absurd rfl ((List.nodup_append.mp arranged.nodup).2.2 other inside other inLive)
      · exact empty
    · rw [modifyPage_of_ne same]
      exact arranged.spareEmpty other inside

theorem live_of_items {blkno : Nat}
    (member : blkno ∈ spare ++ live) (items : (pages blkno).itemOffsets ≠ []) : blkno ∈ live := by
  rcases List.mem_append.mp member with inSpare | inLive
  · exact absurd (arranged.spareEmpty blkno inSpare) items
  · exact inLive

theorem live_nodup : live.Nodup :=
  (List.nodup_append.mp arranged.nodup).2.1

/-- The same pages with the same items, divided anew into spare and live ones. -/
theorem rearrange {spare' live' : List Nat}
    (same : ∀ blkno ∈ spare ++ live, (pages blkno).SameItems (next blkno) (blockGetMaxItems blkno))
    (links : ∀ blkno, nextBlknoOf next blkno = nextBlknoOf pages blkno ∧
      prevBlknoOf next blkno = prevBlknoOf pages blkno)
    (perm : (spare' ++ live').Perm (spare ++ live))
    (ring : Ring (nextBlknoOf pages) (prevBlknoOf pages) (spare' ++ live')) (nonempty : live' ≠ [])
    (headFlag : ∀ blkno ∈ spare ++ live, (next blkno).header.headPage = true ↔ live'.head? = some blkno)
    (tailFlag : ∀ blkno ∈ spare ++ live, (next blkno).header.tailPage = true ↔ live'.getLast? = some blkno)
    (spareEmpty : ∀ blkno ∈ spare', (pages blkno).itemOffsets = []) :
    Arranged next spare' live' where
  nonempty := nonempty
  nodup := perm.nodup_iff.mpr arranged.nodup
  several := perm.length_eq ▸ arranged.several
  ring := ring.congr (fun blkno _ => (links blkno).1) (fun blkno _ => (links blkno).2)
  headFlag blkno inside := headFlag blkno (perm.mem_iff.mp inside)
  tailFlag blkno inside := tailFlag blkno (perm.mem_iff.mp inside)
  wellFormed blkno inside := (same blkno (perm.mem_iff.mp inside)).wellFormed
  spareEmpty blkno inside := by
    rw [(same blkno (perm.mem_iff.mp (List.mem_append_left live' inside))).offsets]
    exact spareEmpty blkno inside

end

theorem changeEndpoint_links {buf nextBuf : Nat} {isHead : Bool} (different : buf ≠ nextBuf) (blkno : Nat) :
    nextBlknoOf (recycleQueueChangeEndpoint pages buf nextBuf isHead) blkno = nextBlknoOf pages blkno ∧
      prevBlknoOf (recycleQueueChangeEndpoint pages buf nextBuf isHead) blkno =
        prevBlknoOf pages blkno := by
  have fields := changeEndpoint_endpoints pages isHead different blkno
  simp only [QueuePage.endpoints, Prod.mk.injEq] at fields
  exact ⟨fields.2.2.2, fields.2.2.1⟩

/-- The head moves from an emptied page to the next one. -/
theorem changeHead {head following : Nat} {rest : List Nat}
    (arranged : Arranged pages spare (head :: following :: rest))
    (empty : (pages head).itemOffsets = []) :
    nextBlknoOf pages head = following ∧
      Arranged (recycleQueueChangeEndpoint pages head following true) (spare ++ [head]) (following :: rest) ∧
      heldOn (recycleQueueChangeEndpoint pages head following true) (following :: rest) =
        heldOn pages (head :: following :: rest) ∧
      ∀ blkno ∈ spare ++ head :: following :: rest,
        (pages blkno).SameItems (recycleQueueChangeEndpoint pages head following true blkno)
          (blockGetMaxItems blkno) := by
  have adjacent : nextBlknoOf pages head = following := arranged.ring.next_adjacent
  have different : head ≠ following := by
    have liveNodup := arranged.live_nodup
    rintro rfl
    simp at liveNodup
  have sameRing : (spare ++ [head]) ++ following :: rest = spare ++ head :: following :: rest := by
    simp
  have same : ∀ blkno ∈ spare ++ head :: following :: rest,
      (pages blkno).SameItems (recycleQueueChangeEndpoint pages head following true blkno)
        (blockGetMaxItems blkno) := by
    intro blkno inside
    have wellFormed := arranged.wellFormed blkno inside
    by_cases atHead : blkno = head
    · subst atHead
      rw [changeEndpoint_left different]
      exact wellFormed.leftPage_head empty
    · by_cases atNext : blkno = following
      · subst atNext
        rw [changeEndpoint_right different]
        exact wellFormed.rightPage_head
      · rw [changeEndpoint_other atHead atNext]
        exact wellFormed.sameItems_refl
  have flags := changeEndpoint_endpoints pages true different
  simp only [QueuePage.endpoints, Prod.mk.injEq, if_true] at flags
  refine ⟨adjacent, ?_, ?_, same⟩
  · refine arranged.rearrange same (fun blkno => changeEndpoint_links different blkno)
      (sameRing ▸ List.Perm.refl _) (sameRing ▸ arranged.ring) (by simp) ?_ ?_ ?_
    · intro blkno inside
      rw [(flags blkno).1]
      have old := arranged.headFlag blkno inside
      by_cases atHead : blkno = head
      · simp [atHead, different.symm]
      · by_cases atNext : blkno = following
        · simp [atNext, different.symm]
        · simp only [atHead, atNext, if_false, old]
          simp [Ne.symm atHead, Ne.symm atNext]
    · intro blkno inside
      rw [(flags blkno).2.1, arranged.tailFlag blkno inside, List.getLast?_cons_cons]
    · intro blkno inside
      rcases List.mem_append.mp inside with old | new
      · exact arranged.spareEmpty blkno old
      · rw [List.mem_singleton.mp new]
        exact empty
  · rw [heldOn_cons pages, heldBlocks_eq_nil empty]
    simpa using heldOn_congr
      (fun blkno inside =>
      (same blkno (by simp only [List.mem_append, List.mem_cons] at inside ⊢; tauto)).blocks)

/-- The tail moves from a page with items to the unused page after it. -/
theorem changeTail {unused tail : Nat} (arranged : Arranged pages (unused :: spare) live)
    (last : live.getLast? = some tail) (items : (pages tail).itemOffsets ≠ []) :
    Arranged (recycleQueueChangeEndpoint pages tail unused false) spare (live ++ [unused]) ∧
      heldOn (recycleQueueChangeEndpoint pages tail unused false) (live ++ [unused]) = heldOn pages live ∧
      ∀ blkno ∈ unused :: spare ++ live,
        (pages blkno).SameItems (recycleQueueChangeEndpoint pages tail unused false blkno)
          (blockGetMaxItems blkno) := by
  have tailLive : tail ∈ live := List.mem_of_getLast? last
  have different : tail ≠ unused := by
    rintro rfl
    exact (List.nodup_append.mp arranged.nodup).2.2 tail (by simp) tail tailLive rfl
  have same : ∀ blkno ∈ unused :: spare ++ live,
      (pages blkno).SameItems (recycleQueueChangeEndpoint pages tail unused false blkno)
        (blockGetMaxItems blkno) := by
    intro blkno inside
    have wellFormed := arranged.wellFormed blkno inside
    by_cases atTail : blkno = tail
    · subst atTail
      rw [changeEndpoint_left different]
      exact wellFormed.leftPage_tail items
    · by_cases atNext : blkno = unused
      · subst atNext
        rw [changeEndpoint_right different]
        exact wellFormed.sameItems_header _ ⟨rfl, rfl, rfl, rfl⟩
      · rw [changeEndpoint_other atTail atNext]
        exact wellFormed.sameItems_refl
  have flags := changeEndpoint_endpoints pages false different
  simp only [QueuePage.endpoints, Prod.mk.injEq, Bool.false_eq_true, if_false] at flags
  have turned : (spare ++ (live ++ [unused])).Perm (unused :: spare ++ live) := by
    rw [← List.append_assoc]
    exact List.perm_append_singleton unused (spare ++ live)
  refine ⟨?_, ?_, same⟩
  · refine arranged.rearrange same (fun blkno => changeEndpoint_links different blkno) turned ?_
      (by simp) ?_ ?_ ?_
    · rw [← List.append_assoc]
      exact arranged.ring.rotate
    · intro blkno inside
      rw [(flags blkno).1, arranged.headFlag blkno inside, List.head?_append_of_ne_nil _ arranged.nonempty]
    · intro blkno inside
      rw [(flags blkno).2.1, List.getLast?_append_of_ne_nil _ (by simp)]
      have old := arranged.tailFlag blkno inside
      rw [last] at old
      by_cases atTail : blkno = tail
      · simp [atTail, different.symm]
      · by_cases atNext : blkno = unused
        · simp [atNext, different.symm]
        · simp only [atTail, atNext, if_false, old]
          simp [Ne.symm atTail, Ne.symm atNext]
    · intro blkno inside
      exact arranged.spareEmpty blkno (by simp [inside])
  · have empty := arranged.spareEmpty unused (by simp)
    have moved : heldOn (recycleQueueChangeEndpoint pages tail unused false) live = heldOn pages live :=
      heldOn_congr (fun blkno inside => (same blkno (List.mem_append_right _ inside)).blocks)
    rw [heldOn_append, moved, heldOn_cons, (same unused (by simp)).blocks, heldBlocks_eq_nil empty]
    simp [heldOn]

theorem linkNewPage_new (pages : QueuePages) {left new : Nat} (notLeft : new ≠ left)
    (notRight : new ≠ (pages left).header.nextBlkno) :
    recycleQueueLinkNewPage pages left new new =
      initRecycleQueuePage new left (pages left).header.nextBlkno := by
  simp only [recycleQueueLinkNewPage]
  rw [modifyPage_of_ne notRight, modifyPage_of_ne notLeft, modifyPage_self]

/-- Linking a new page leaves the items and the flags of the old pages alone. -/
theorem linkNewPage_old {left new blkno : Nat} (different : blkno ≠ new) :
    recycleQueueLinkNewPage pages left new blkno =
      { pages blkno with header := { (pages blkno).header with
          nextBlkno := if blkno = left then new else (pages blkno).header.nextBlkno
          prevBlkno := if blkno = (pages left).header.nextBlkno then new
            else (pages blkno).header.prevBlkno } } := by
  simp only [recycleQueueLinkNewPage]
  by_cases atRight : blkno = (pages left).header.nextBlkno
  · rw [← atRight, modifyPage_self]
    by_cases atLeft : blkno = left
    · subst atLeft
      rw [modifyPage_self, modifyPage_of_ne different]
      simp
    · rw [modifyPage_of_ne atLeft, modifyPage_of_ne different]
      simp [atLeft]
  · rw [modifyPage_of_ne atRight]
    by_cases atLeft : blkno = left
    · subst atLeft
      rw [modifyPage_self, modifyPage_of_ne different]
      simp [atRight]
    · rw [modifyPage_of_ne atLeft, modifyPage_of_ne different]
      simp [atLeft, atRight]

variable (arranged : Arranged pages spare live)
include arranged

/-- A new page after the tail: it is linked into the ring and not in use. -/
theorem linkNewPage {tail new : Nat}
    (last : live.getLast? = some tail) (fresh : new ∉ spare ++ live) (ordinary : 2 ≤ new) :
    Arranged (recycleQueueLinkNewPage pages tail new) (new :: spare) live ∧
      heldOn (recycleQueueLinkNewPage pages tail new) live = heldOn pages live ∧
      ∀ blkno ∈ spare ++ live, (recycleQueueLinkNewPage pages tail new blkno).header.freeItems =
          (pages blkno).header.freeItems := by
  obtain ⟨first, tail', linked⟩ := arranged.ring
  have ringNonempty : spare ++ live ≠ [] := by simp [arranged.nonempty]
  obtain ⟨front, rfl⟩ := List.getLast?_eq_some_iff.mp last
  have sameTail : tail' = tail := by
    rw [← List.append_assoc] at linked
    exact linked.last_eq
  subst sameTail
  have nextTail : (pages tail').header.nextBlkno = first := linked.next_last ringNonempty
  have tailIn : tail' ∈ spare ++ (front ++ [tail']) := by simp
  have firstIn : first ∈ spare ++ (front ++ [tail']) := linked.first_mem ringNonempty
  have old : ∀ blkno ∈ spare ++ (front ++ [tail']), blkno ≠ new := by
    rintro blkno inside rfl
    exact fresh inside
  have newPage := linkNewPage_new pages (old tail' tailIn).symm (nextTail ▸ (old first firstIn).symm)
  have same : ∀ blkno ∈ spare ++ (front ++ [tail']), (pages blkno).SameItems
      (recycleQueueLinkNewPage pages tail' new blkno) (blockGetMaxItems blkno) := by
    intro blkno inside
    rw [linkNewPage_old (old blkno inside)]
    exact (arranged.wellFormed blkno inside).sameItems_header _ ⟨rfl, rfl, rfl, rfl⟩
  have notMeta : isMetaPage new = false := decide_eq_false (by omega)
  refine ⟨⟨arranged.nonempty, List.nodup_cons.mpr ⟨fresh, arranged.nodup⟩, ?_, ?_, ?_, ?_, ?_, ?_⟩,
    ?_, fun blkno inside => (same blkno inside).unused⟩
  · have := arranged.several
    simp only [List.cons_append, List.length_cons]
    omega
  · have pushed : Ring (nextBlknoOf (recycleQueueLinkNewPage pages tail' new))
        (prevBlknoOf (recycleQueueLinkNewPage pages tail' new))
        ((spare ++ (front ++ [tail'])) ++ [new]) := by
      refine Ring.push linked ringNonempty arranged.nodup ?_ ?_ ?_ ?_ ?_ ?_
      · intro blkno inside different
        simp [nextBlknoOf, linkNewPage_old (old blkno inside), different]
      · intro blkno inside different
        simp [prevBlknoOf, linkNewPage_old (old blkno inside), nextTail, different]
      · simp [nextBlknoOf, linkNewPage_old (old tail' tailIn)]
      · simp [prevBlknoOf, linkNewPage_old (old first firstIn), nextTail]
      · simp [nextBlknoOf, newPage, nextTail, initRecycleQueuePage]
      · simp [prevBlknoOf, newPage, initRecycleQueuePage]
    exact pushed.rotate_append
  · intro blkno inside
    rcases List.mem_cons.mp inside with rfl | inOld
    · have notHead : (front ++ [tail']).head? ≠ some blkno := by
        intro isHead
        exact fresh (List.mem_append_right _ (List.mem_of_mem_head? isHead))
      simp only [newPage, initRecycleQueuePage, notMeta, Bool.false_eq_true, false_iff]
      exact notHead
    · rw [linkNewPage_old (old blkno inOld)]
      exact arranged.headFlag blkno inOld
  · intro blkno inside
    rcases List.mem_cons.mp inside with rfl | inOld
    · have notTail : (front ++ [tail']).getLast? ≠ some blkno := by
        intro isTail
        exact fresh (List.mem_append_right _ (List.mem_of_getLast? isTail))
      simp only [newPage, initRecycleQueuePage, notMeta, Bool.false_eq_true, false_iff]
      exact notTail
    · rw [linkNewPage_old (old blkno inOld)]
      exact arranged.tailFlag blkno inOld
  · intro blkno inside
    rcases List.mem_cons.mp inside with rfl | inOld
    · rw [newPage]
      exact (initRecycleQueuePage_layout _ _ _).wellFormed
    · exact (same blkno inOld).wellFormed
  · intro blkno inside
    rcases List.mem_cons.mp inside with rfl | inOld
    · rw [newPage]
      exact (initRecycleQueuePage_layout _ _ _).itemOffsets_eq
    · rw [(same blkno (List.mem_append_left _ inOld)).offsets]
      exact arranged.spareEmpty blkno inOld
  · exact heldOn_congr (fun blkno inside => (same blkno (List.mem_append_right _ inside)).blocks)

theorem next_tail {tail : Nat} (last : live.getLast? = some tail) :
    (spare ++ live).head? = some (pages tail).header.nextBlkno := by
  obtain ⟨front, rfl⟩ := List.getLast?_eq_some_iff.mp last
  obtain ⟨first, final, linked⟩ := arranged.ring
  have nonempty : spare ++ (front ++ [tail]) ≠ [] := by simp
  have atEnd : final = tail := by
    rw [← List.append_assoc] at linked
    exact linked.last_eq
  subst atEnd
  rw [show (pages final).header.nextBlkno = first from linked.next_last nonempty]
  cases ring : spare ++ (front ++ [final]) with
  | nil => exact absurd ring nonempty
  | cons head rest =>
    rw [ring] at linked
    rw [linked.1, List.head?_cons]

/-- When the page after the tail is empty, it is a spare page. -/
theorem spare_of_empty {tail : Nat} (last : live.getLast? = some tail)
    (empty : (pages (pages tail).header.nextBlkno).queuePageIsEmpty = true) :
    ∃ rest, spare = (pages tail).header.nextBlkno :: rest := by
  have first := arranged.next_tail last
  cases spare with
  | nil =>
    have inside := List.mem_of_mem_head? first
    have isHead := (arranged.headFlag _ inside).mpr (by simpa using first)
    simp [QueuePage.queuePageIsEmpty, isHead] at empty
  | cons unused rest =>
    rw [List.cons_append, List.head?_cons, Option.some.injEq] at first
    exact ⟨rest, by rw [first]⟩

end Arranged

end OpenGauss.UBTree
