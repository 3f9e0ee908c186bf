import OpenGauss.UBTree.QueueArrangement

namespace OpenGauss.UBTree

open Lib

namespace Arranged

variable {pages : QueuePages} {spare live : List Nat}

/-- The state after pages lost items: the ring is the same, the tail page is the same, the head may
have moved, and no slot became unused. -/
structure Shrunk (pages : QueuePages) (spare live : List Nat) (next : QueuePages)
    (nextSpare nextLive : List Nat) : Prop where
  arranged : Arranged next nextSpare nextLive
  sameRing : nextSpare ++ nextLive = spare ++ live
  sameTail : nextLive.getLast? = live.getLast?
  unused : ∀ blkno ∈ spare ++ live, (next blkno).header.freeItems = (pages blkno).header.freeItems

theorem Shrunk.refl (arranged : Arranged pages spare live) : Shrunk pages spare live pages spare live :=
  ⟨arranged, rfl, rfl, fun _ _ => rfl⟩

theorem Shrunk.trans {next last : QueuePages} {nextSpare nextLive lastSpare lastLive : List Nat}
    (first : Shrunk pages spare live next nextSpare nextLive)
    (second : Shrunk next nextSpare nextLive last lastSpare lastLive) :
    Shrunk pages spare live last lastSpare lastLive where
  arranged := second.arranged
  sameRing := second.sameRing.trans first.sameRing
  sameTail := second.sameTail.trans first.sameTail
  unused blkno inside := by
    rw [second.unused blkno (first.sameRing ▸ inside), first.unused blkno inside]

/-- The head moves off an empty page that is not the tail page. -/
theorem dropHead (arranged : Arranged pages spare live) {buf : Nat} (member : buf ∈ spare ++ live)
    (empty : (pages buf).itemOffsets = []) (isHead : (pages buf).header.headPage = true)
    (notTail : (pages buf).header.tailPage = false) :
    ∃ nextSpare nextLive, Shrunk pages spare live
        (recycleQueueChangeEndpoint pages buf (pages buf).header.nextBlkno true) nextSpare nextLive ∧
      heldOn (recycleQueueChangeEndpoint pages buf (pages buf).header.nextBlkno true) nextLive =
        heldOn pages live ∧
      ∀ blkno ∈ spare ++ live,
        (recycleQueueChangeEndpoint pages buf (pages buf).header.nextBlkno true blkno).itemOffsets =
          (pages blkno).itemOffsets := by
  have first : live.head? = some buf := (arranged.headFlag buf member).mp isHead
  have notLast : live.getLast? ≠ some buf := by
    intro last
    rw [(arranged.tailFlag buf member).mpr last] at notTail
    cases notTail
  obtain ⟨following, rest, rfl⟩ : ∃ following rest, live = buf :: following :: rest := by
    cases live with
    | nil => cases first
    | cons head rest =>
      obtain rfl : head = buf := by simpa using first
      cases rest with
      | nil => exact absurd rfl notLast
      | cons following rest => exact ⟨following, rest, rfl⟩
  obtain ⟨adjacent, moved, heldMoved, same⟩ := arranged.changeHead empty
  rw [show (pages buf).header.nextBlkno = following from adjacent]
  exact ⟨spare ++ [buf], following :: rest, ⟨moved, by simp, by rw [List.getLast?_cons_cons],
    fun blkno inside => (same blkno inside).unused⟩, heldMoved,
    fun blkno inside => (same blkno inside).offsets⟩

/-- Removing a used item: its block leaves the record, the other items of the page stay. -/
theorem removeOneItem (arranged : Arranged pages spare live) {buf offset : Nat}
    (member : buf ∈ spare ++ live) (used : offset ∈ (pages buf).itemOffsets) :
    ∃ nextSpare nextLive,
      Shrunk pages spare live (removeOneItemFromPage pages buf offset) nextSpare nextLive ∧
      heldOn pages live = ((if ((pages buf).items offset).blkno = invalidBlockNumber then []
          else [((pages buf).items offset).blkno] : List Nat) : Multiset Nat) +
          heldOn (removeOneItemFromPage pages buf offset) nextLive ∧
      (removeOneItemFromPage pages buf offset buf).itemOffsets = (pages buf).itemOffsets.erase offset ∧
      ((pages buf).itemOffsets.erase offset ≠ [] → ∀ slot, slot ≠ offset →
          ((removeOneItemFromPage pages buf offset buf).items slot).blkno =
            ((pages buf).items slot).blkno) := by
  have live' := arranged.live_of_items member (List.ne_nil_of_mem used)
  obtain ⟨wellFormed, endpoints, offsets, unmoved, blocks, unused⟩ :=
    (arranged.wellFormed buf member).remove used
  have removed := arranged.modify (·.removeItem offset) endpoints wellFormed (Or.inl live')
  obtain ⟨others, heldBefore, heldAfter⟩ := heldOn_modify pages arranged.live_nodup live'
  have held : heldOn pages live = ((if ((pages buf).items offset).blkno = invalidBlockNumber then []
        else [((pages buf).items offset).blkno] : List Nat) : Multiset Nat) +
        heldOn (modifyPage pages buf (·.removeItem offset)) live := by
    rw [heldBefore, heldAfter, Multiset.coe_eq_coe.mpr blocks, ← Multiset.coe_add, add_assoc]
  have page : modifyPage pages buf (·.removeItem offset) buf = (pages buf).removeItem offset :=
    modifyPage_self _ _ _
  have unusedAll : ∀ blkno ∈ spare ++ live,
      (modifyPage pages buf (·.removeItem offset) blkno).header.freeItems =
        (pages blkno).header.freeItems := by
    intro blkno _
    by_cases same : blkno = buf
    · rw [same, page, unused]
    · rw [modifyPage_of_ne same]
  by_cases handsOver : (!isNormalOffset ((pages buf).removeItem offset).header.head &&
      (((pages buf).removeItem offset).header.headPage &&
        !((pages buf).removeItem offset).header.tailPage)) = true
  · -- The head page lost its last item and the queue goes on in the next page.
    have result : removeOneItemFromPage pages buf offset =
        recycleQueueChangeEndpoint (modifyPage pages buf (·.removeItem offset)) buf
          (modifyPage pages buf (·.removeItem offset) buf).header.nextBlkno true := by
      simp only [removeOneItemFromPage, page, handsOver, if_true]
    simp only [Bool.and_eq_true, Bool.not_eq_true'] at handsOver
    obtain ⟨abnormal, isHead, notTail⟩ := handsOver
    have empty : (modifyPage pages buf (·.removeItem offset) buf).itemOffsets = [] := by
      rw [page]
      by_contra nonempty
      rw [wellFormed.head_normal_iff.mpr nonempty] at abnormal
      cases abnormal
    obtain ⟨nextSpare, nextLive, shrunk, heldMoved, sameOffsets⟩ := removed.dropHead member empty
      (by rw [page]; exact isHead) (by rw [page]; exact notTail)
    rw [result]
    refine ⟨nextSpare, nextLive, ⟨shrunk.arranged, shrunk.sameRing, shrunk.sameTail, ?_⟩, ?_, ?_, ?_⟩
    · intro blkno inside
      rw [shrunk.unused blkno inside, unusedAll blkno inside]
    · rw [held, heldMoved]
    · rw [sameOffsets buf member, page, offsets]
    · intro remaining
      rw [page, offsets] at empty
      exact absurd empty remaining
  · have result : removeOneItemFromPage pages buf offset = modifyPage pages buf (·.removeItem offset) := by
      simp only [removeOneItemFromPage, page, handsOver, Bool.false_eq_true, if_false]
    rw [result]
    refine ⟨spare, live, ⟨removed, rfl, rfl, unusedAll⟩, held, by rw [page, offsets], ?_⟩
    intro _ slot different
    rw [page]
    exact unmoved slot different

/-- Walking along the page links visits the pages in ring order until one has the flag. -/
theorem stepToEndpoint_linked {needHead : Bool} : ∀ (slots : List Nat) (fuel before first last after : Nat),
      Linked (nextBlknoOf pages) (prevBlknoOf pages) before first slots last after →
      (∃ target ∈ slots, endpointFlag (pages target).header needHead = true) →
      slots.length ≤ fuel →
      ∃ target ∈ slots, stepToEndpoint pages needHead fuel first = some target ∧
        endpointFlag (pages target).header needHead = true := by
  intro slots
  induction slots with
  | nil =>
    intro fuel before first last after _ found _
    obtain ⟨target, inside, -⟩ := found
    cases inside
  | cons slot rest ih =>
    intro fuel before first last after linked found enough
    obtain ⟨rfl, -, tail⟩ := linked
    cases fuel with
    | zero => simp at enough
    | succ fuel =>
      by_cases flagged : endpointFlag (pages first).header needHead = true
      · exact ⟨first, by simp, by simp [stepToEndpoint, flagged], flagged⟩
      · obtain ⟨target, inside, flag⟩ := found
        have later : target ∈ rest := by
          rcases List.mem_cons.mp inside with rfl | later
          · exact absurd flag flagged
          · exact later
        obtain ⟨reached, inRest, steps, isEndpoint⟩ :=
          ih fuel _ _ _ _ tail ⟨target, later, flag⟩ (by simpa using enough)
        refine ⟨reached, List.mem_cons_of_mem _ inRest, ?_, isEndpoint⟩
        simp only [stepToEndpoint, flagged, Bool.false_eq_true, if_false]
        exact steps

variable (arranged : Arranged pages spare live)
include arranged

/-- From any page of the ring, the walk reaches the endpoint. -/
theorem stepToEndpoint {start fuel : Nat}
    (member : start ∈ spare ++ live) (enough : (spare ++ live).length ≤ fuel) (needHead : Bool) :
    ∃ target ∈ spare ++ live, UBTree.stepToEndpoint pages needHead fuel start = some target ∧
      endpointFlag (pages target).header needHead = true := by
  obtain ⟨front, back, split⟩ := List.append_of_mem member
  have turned : Ring (nextBlknoOf pages) (prevBlknoOf pages) (start :: back ++ front) := by
    have ring := arranged.ring
    rw [split] at ring
    exact ring.rotate_append
  have perm : (start :: back ++ front).Perm (spare ++ live) := by
    rw [split]
    exact List.perm_append_comm
  have flagged : ∃ target ∈ start :: back ++ front, endpointFlag (pages target).header needHead = true := by
    cases needHead with
    | true =>
      obtain ⟨head, first⟩ : ∃ head, live.head? = some head :=
        ⟨_, List.head?_eq_some_head arranged.nonempty⟩
      have inside := List.mem_append_right spare (List.mem_of_mem_head? first)
      exact ⟨head, perm.mem_iff.mpr inside, (arranged.headFlag head inside).mpr first⟩
    | false =>
      obtain ⟨tail, last⟩ : ∃ tail, live.getLast? = some tail :=
        ⟨_, List.getLast?_eq_some_getLast arranged.nonempty⟩
      have inside := List.mem_append_right spare (List.mem_of_getLast? last)
      exact ⟨tail, perm.mem_iff.mpr inside, (arranged.tailFlag tail inside).mpr last⟩
  obtain ⟨first, last, linked⟩ := turned
  obtain ⟨target, inside, steps, flag⟩ :=
    stepToEndpoint_linked _ fuel _ _ _ _ linked flagged (perm.length_eq ▸ enough)
  rw [linked.1] at steps
  exact ⟨target, perm.mem_iff.mp inside, steps, flag⟩

/-- Removing the head item of a page when it is invalid costs no block. -/
theorem removeInvalidHead {buf : Nat} (member : buf ∈ spare ++ live) :
    ∃ nextSpare nextLive, Shrunk pages spare live (if isNormalOffset (pages buf).header.head &&
            ((pages buf).items (pages buf).header.head).blkno = invalidBlockNumber then
          removeOneItemFromPage pages buf (pages buf).header.head
        else pages) nextSpare nextLive ∧
      heldOn (if isNormalOffset (pages buf).header.head &&
            ((pages buf).items (pages buf).header.head).blkno = invalidBlockNumber then
          removeOneItemFromPage pages buf (pages buf).header.head
        else pages) nextLive = heldOn pages live := by
  split
  · rename_i removes
    simp only [Bool.and_eq_true, decide_eq_true_eq] at removes
    obtain ⟨free, layout⟩ := arranged.wellFormed buf member
    have nonempty := layout.head_normal_iff.mp removes.1
    obtain ⟨before, after, -, -, linked⟩ := layout.linked
    obtain ⟨nextSpare, nextLive, shrunk, held, -, -⟩ :=
      arranged.removeOneItem member (linked.first_mem nonempty)
    refine ⟨nextSpare, nextLive, shrunk, ?_⟩
    simpa [removes.2] using held.symm
  · exact ⟨spare, live, Shrunk.refl arranged, rfl⟩

/-- `MoveToEndpointPage` returns a page of the ring and keeps the record of the queue; asked for
the tail it returns the tail page. -/
theorem moveToEndpoint {start fuel : Nat}
    (member : start ∈ spare ++ live) (enough : (spare ++ live).length ≤ fuel) (needHead : Bool) :
    ∃ next buf nextSpare nextLive, moveToEndpointPage pages fuel start needHead = some (next, buf) ∧
      Shrunk pages spare live next nextSpare nextLive ∧ buf ∈ spare ++ live ∧
      heldOn next nextLive = heldOn pages live ∧
      (needHead = false → nextLive.getLast? = some buf) := by
  obtain ⟨target, inside, steps, flag⟩ := arranged.stepToEndpoint member enough needHead
  obtain ⟨midSpare, midLive, shrunk, held⟩ := arranged.removeInvalidHead inside
  simp only [moveToEndpointPage, steps, Option.bind_eq_bind, Option.bind_some]
  generalize (if isNormalOffset (pages target).header.head &&
      ((pages target).items (pages target).header.head).blkno = invalidBlockNumber then
    removeOneItemFromPage pages target (pages target).header.head else pages) = mid at shrunk held ⊢
  have inMid : target ∈ midSpare ++ midLive := by
    rw [shrunk.sameRing]
    exact inside
  by_cases leaves : (needHead && (!isNormalOffset (mid target).header.head &&
      !(mid target).header.tailPage)) = true
  · rw [if_pos leaves]
    simp only [Bool.and_eq_true, Bool.not_eq_true'] at leaves
    obtain ⟨rfl, abnormal, notTail⟩ := leaves
    have nextIn : (mid target).header.nextBlkno ∈ spare ++ live := by
      rw [← shrunk.sameRing]
      exact shrunk.arranged.ring.next_mem inMid
    have empty : (mid target).itemOffsets = [] := by
      by_contra nonempty
      rw [(shrunk.arranged.wellFormed target inMid).head_normal_iff.mpr nonempty] at abnormal
      cases abnormal
    by_cases isHead : (mid target).header.headPage = true
    · obtain ⟨nextSpare, nextLive, dropped, heldDropped, -⟩ :=
        shrunk.arranged.dropHead inMid empty isHead notTail
      exact ⟨_, _, nextSpare, nextLive, rfl, by simpa [isHead] using shrunk.trans dropped, nextIn,
        by simpa [isHead] using heldDropped.trans held, by simp⟩
    · exact ⟨_, _, midSpare, midLive, rfl, by simpa [isHead] using shrunk, nextIn,
        by simpa [isHead] using held, by simp⟩
  · rw [if_neg leaves]
    refine ⟨mid, target, midSpare, midLive, rfl, shrunk, inside, held, ?_⟩
    rintro rfl
    rw [shrunk.sameTail]
    exact (arranged.tailFlag target inside).mp flag

end Arranged

end OpenGauss.UBTree
