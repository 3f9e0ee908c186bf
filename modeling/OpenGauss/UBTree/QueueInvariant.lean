import OpenGauss.Lib.Lists
import OpenGauss.UBTree.QueueMove

namespace OpenGauss.UBTree

open Lib

/-- Removing invalid neighbours of a used item never removes the item itself. -/
theorem Arranged.removeInvalidSide (side : QueueItem → Nat) {buf offset : Nat}
    (sideUsed : ∀ {page : QueuePage} {maxItems : Nat} {used free : List Nat},
      page.Layout maxItems used free → offset ∈ used →
      isNormalOffset (side (page.items offset)) = true →
        side (page.items offset) ∈ used ∧ side (page.items offset) ≠ offset) :
    ∀ (fuel : Nat) {pages : QueuePages} {spare live : List Nat}, Arranged pages spare live →
      buf ∈ spare ++ live → offset ∈ (pages buf).itemOffsets →
      ∃ nextSpare nextLive,
        Shrunk pages spare live (RecycleQueue.removeInvalidSide side buf offset fuel pages)
          nextSpare nextLive ∧
        heldOn (RecycleQueue.removeInvalidSide side buf offset fuel pages) nextLive = heldOn pages live ∧
        offset ∈ (RecycleQueue.removeInvalidSide side buf offset fuel pages buf).itemOffsets ∧
        ((RecycleQueue.removeInvalidSide side buf offset fuel pages buf).items offset).blkno =
          ((pages buf).items offset).blkno := by
  intro fuel
  induction fuel with
  | zero =>
    intro pages spare live arranged member used
    exact ⟨spare, live, Shrunk.refl arranged, rfl, used, rfl⟩
  | succ fuel ih =>
    intro pages spare live arranged member used
    simp only [RecycleQueue.removeInvalidSide]
    split
    · rename_i removes
      simp only [Bool.and_eq_true, decide_eq_true_eq] at removes
      obtain ⟨free, layout⟩ := arranged.wellFormed buf member
      obtain ⟨neighbourUsed, different⟩ := sideUsed layout used removes.1
      obtain ⟨midSpare, midLive, shrunk, held, offsets, unmoved⟩ :=
        arranged.removeOneItem member neighbourUsed
      have still : offset ∈ (pages buf).itemOffsets.erase (side ((pages buf).items offset)) :=
        (List.mem_erase_of_ne different.symm).mpr used
      obtain ⟨nextSpare, nextLive, shrunkRest, heldRest, usedRest, blknoRest⟩ :=
        ih shrunk.arranged (shrunk.sameRing ▸ member) (offsets ▸ still)
      refine ⟨nextSpare, nextLive, shrunk.trans shrunkRest, ?_, usedRest, ?_⟩
      · rw [heldRest]
        simpa [removes.2] using held.symm
      · rw [blknoRest, unmoved (List.ne_nil_of_mem still) offset different.symm]
    · exact ⟨spare, live, Shrunk.refl arranged, rfl, used, rfl⟩

namespace RecycleQueue

/-- What the operations in progress rely on: the pages they remember stay in the ring, blocks got
by extension are not in it yet, and remembered slots stay in use or on the free list. -/
structure Handles (queue : RecycleQueue) (ring : List Nat) : Prop where
  enough : minRecycleQueueBlockNumber ≤ queue.nblocks
  bounded : ∀ blkno ∈ ring, blkno < queue.nblocks
  advised : ∀ blkno ∈ queue.advised, blkno ∈ ring
  adding : ∀ pending ∈ queue.adding, pending.buf ∈ ring
  extended : ∀ pending ∈ queue.adding, ∀ newBuf, pending.newBuf = some newBuf →
    newBuf ∉ ring ∧ minRecycleQueueBlockNumber ≤ newBuf ∧ newBuf < queue.nblocks
  distinct : (queue.adding.filterMap (·.newBuf)).Nodup
  addresses : ∀ addr ∈ queue.addresses, addr.queueBuf ∈ ring ∧
    (queue.pages addr.queueBuf).header.freeItems ≤ addr.offset ∧
    addr.offset < blockGetMaxItems addr.queueBuf ∧ addr.indexBlkno ≠ invalidBlockNumber

/-- The queue with its pages divided into spare and live ones. -/
structure Invariant (queue : RecycleQueue) (spare live : List Nat) : Prop where
  arranged : Arranged queue.pages spare live
  held : heldOn queue.pages live + queue.gone = queue.added
  handles : queue.Handles (spare ++ live)

variable {queue : RecycleQueue} {spare live ring : List Nat}

/-- New pages over the same blocks, with no slot returned to the never-used pool. -/
theorem Handles.withPages (handles : queue.Handles ring) {pages : QueuePages} {ring' : List Nat}
    (same : ∀ blkno, blkno ∈ ring' ↔ blkno ∈ ring)
    (fewer : ∀ addr ∈ queue.addresses, (pages addr.queueBuf).header.freeItems ≤
      (queue.pages addr.queueBuf).header.freeItems) (added gone : Multiset Nat) :
    Handles { queue with pages, added, gone } ring' where
  enough := handles.enough
  bounded blkno inside := handles.bounded blkno ((same blkno).mp inside)
  advised blkno inside := (same blkno).mpr (handles.advised blkno inside)
  adding pending inside := (same _).mpr (handles.adding pending inside)
  extended pending inside newBuf new := by
    obtain ⟨outside, bounds⟩ := handles.extended pending inside newBuf new
    exact ⟨fun inRing => outside ((same newBuf).mp inRing), bounds⟩
  distinct := handles.distinct
  addresses addr inside := by
    obtain ⟨inRing, low, high, valid⟩ := handles.addresses addr inside
    exact ⟨(same _).mpr inRing, (fewer addr inside).trans low, high, valid⟩

theorem Handles.advise (handles : queue.Handles ring) {blkno : Nat} (member : blkno ∈ ring) :
    Handles { queue with advised := blkno :: queue.advised } ring where
  enough := handles.enough
  bounded := handles.bounded
  advised other inside := by
    rcases List.mem_cons.mp inside with rfl | old
    · exact member
    · exact handles.advised other old
  adding := handles.adding
  extended := handles.extended
  distinct := handles.distinct
  addresses := handles.addresses

theorem Invariant.ring_length_le (invariant : queue.Invariant spare live) :
    (spare ++ live).length ≤ queue.nblocks := by
  have inRange : spare ++ live ⊆ List.range queue.nblocks := by
    intro blkno inside
    exact List.mem_range.mpr (invariant.handles.bounded blkno inside)
  have bound := (invariant.arranged.nodup.subperm inRange).length_le
  rwa [List.length_range] at bound

/-- The insertion at a live page with space. -/
theorem Handles.insertAt {pages : QueuePages} (handles : queue.Handles ring)
    (arranged : Arranged pages spare live)
    (held : heldOn pages live + queue.gone = queue.added)
    (same : ∀ blkno, blkno ∈ spare ++ live ↔ blkno ∈ ring)
    (fewer : ∀ addr ∈ queue.addresses, (pages addr.queueBuf).header.freeItems ≤
      (queue.pages addr.queueBuf).header.freeItems)
    {buf : Nat} (member : buf ∈ live) (space : (pages buf).pageAllocateItem ≠ invalidOffset)
    (block : IndexBlock) (xid : Nat) :
    (queue.insertAt pages buf block xid).Invariant spare live := by
  have inRing := List.mem_append_right spare member
  obtain ⟨wellFormed, endpoints, blocks, taken⟩ :=
    (arranged.wellFormed buf inRing).insert space block xid
  obtain ⟨others, heldBefore, heldAfter⟩ := heldOn_modify pages arranged.live_nodup member
  refine ⟨arranged.modify (fun page =>
    page.insertOnRecycleQueuePage page.pageAllocateItem block.number xid) endpoints wellFormed
      (Or.inl member), ?_, ?_⟩
  · simp only [RecycleQueue.insertAt]
    rw [heldAfter, Multiset.coe_eq_coe.mpr blocks, ← held, heldBefore, ← Multiset.cons_coe,
      Multiset.cons_add, Multiset.cons_add]
  · refine handles.withPages same ?_ _ _
    intro addr inside
    by_cases atBuf : addr.queueBuf = buf
    · subst atBuf
      rw [modifyPage_self]
      exact taken.trans (fewer addr inside)
    · rw [modifyPage_of_ne atBuf]
      exact fewer addr inside

theorem blockGetMaxItems_pos (blkno : Nat) : 0 < blockGetMaxItems blkno := by
  unfold blockGetMaxItems
  split <;> omega

/-- The tail moves to an unused page, which receives the item. -/
theorem Handles.insertNext {pages : QueuePages} {unused tail : Nat} (handles : queue.Handles ring)
    (arranged : Arranged pages (unused :: spare) live)
    (held : heldOn pages live + queue.gone = queue.added)
    (same : ∀ blkno, blkno ∈ unused :: spare ++ live ↔ blkno ∈ ring)
    (fewer : ∀ addr ∈ queue.addresses, (pages addr.queueBuf).header.freeItems ≤
      (queue.pages addr.queueBuf).header.freeItems)
    (last : live.getLast? = some tail) (full : (pages tail).pageAllocateItem = invalidOffset)
    (block : IndexBlock) (xid : Nat) :
    (queue.insertAt (recycleQueueChangeEndpoint pages tail unused false) unused block xid).Invariant
      spare (live ++ [unused]) := by
  have tailIn : tail ∈ unused :: spare ++ live :=
    List.mem_append_right _ (List.mem_of_getLast? last)
  have items : (pages tail).itemOffsets ≠ [] := by
    intro empty
    exact (arranged.wellFormed tail tailIn).space_of_empty (blockGetMaxItems_pos tail) empty full
  obtain ⟨moved, heldMoved, kept⟩ := arranged.changeTail last items
  have unusedKept := kept unused (by simp)
  refine handles.insertAt moved (heldMoved ▸ held) ?_ ?_ (by simp) ?_ block xid
  · intro blkno
    rw [← same blkno]
    simp only [List.mem_append, List.mem_cons, List.not_mem_nil]
    tauto
  · intro addr inside
    rw [(kept _ ((same _).mpr (handles.addresses addr inside).1)).unused]
    exact fewer addr inside
  · refine unusedKept.wellFormed.space_of_empty (blockGetMaxItems_pos unused) ?_
    rw [unusedKept.offsets]
    exact arranged.spareEmpty unused (by simp)

theorem Invariant.addPage (invariant : queue.Invariant spare live) {start : Nat}
    (member : start ∈ spare ++ live) (block : IndexBlock) (xid : Nat) :
    ∃ nextSpare nextLive, (queue.addPage start block xid).Invariant nextSpare nextLive := by
  obtain ⟨pages, buf, nextSpare, nextLive, moves, shrunk, bufIn, held, last⟩ :=
    invariant.arranged.moveToEndpoint member invariant.ring_length_le false
  replace last := last rfl
  have handles := invariant.handles.advise bufIn
  have same : ∀ blkno, blkno ∈ nextSpare ++ nextLive ↔ blkno ∈ spare ++ live := by
    intro blkno
    rw [shrunk.sameRing]
  have fewer : ∀ addr ∈ queue.addresses, (pages addr.queueBuf).header.freeItems ≤
      (queue.pages addr.queueBuf).header.freeItems :=
    fun addr inside => (shrunk.unused _ (invariant.handles.addresses addr inside).1).le
  have heldNow : heldOn pages nextLive + queue.gone = queue.added := by
    rw [held, invariant.held]
  simp only [RecycleQueue.addPage, moves]
  split
  · rename_i space
    exact ⟨nextSpare, nextLive, handles.insertAt shrunk.arranged heldNow same fewer
      (List.mem_of_getLast? last) space block xid⟩
  · rename_i full
    split
    · rename_i empty
      obtain ⟨rest, rfl⟩ := shrunk.arranged.spare_of_empty last empty
      exact ⟨rest, nextLive ++ [_], handles.insertNext shrunk.arranged heldNow same fewer
        last (not_not.mp full) block xid⟩
    · refine ⟨nextSpare, nextLive, shrunk.arranged, heldNow, ?_⟩
      have kept := handles.withPages same fewer queue.added queue.gone
      refine ⟨kept.enough, kept.bounded, kept.advised, ?_, ?_, kept.distinct, kept.addresses⟩
      · intro pending inside
        rcases List.mem_cons.mp inside with rfl | old
        · exact (same buf).mpr bufIn
        · exact kept.adding pending old
      · intro pending inside newBuf new
        rcases List.mem_cons.mp inside with rfl | old
        · cases new
        · exact kept.extended pending old newBuf new

/-- An addition leaves the list of pending ones together with the page it extended. -/
theorem Handles.finish (handles : queue.Handles ring) {index newBuf : Nat} {pending : PendingAdd}
    (found : queue.adding[index]? = some pending) (new : pending.newBuf = some newBuf) :
    Handles { queue with adding := queue.adding.eraseIdx index } (newBuf :: ring) := by
  obtain ⟨front, back, -, split, -, erased⟩ := split_at_index found
  have member : pending ∈ queue.adding := List.mem_of_getElem? found
  obtain ⟨outside, bounds⟩ := handles.extended pending member newBuf new
  have older : ∀ other ∈ front ++ back, other ∈ queue.adding := by
    intro other inside
    rw [split]
    simp only [List.mem_append, List.mem_cons] at inside ⊢
    tauto
  have distinct := handles.distinct
  rw [split] at distinct
  simp only [List.filterMap_append, List.filterMap_cons, new] at distinct
  rw [List.nodup_middle, ← List.filterMap_append] at distinct
  obtain ⟨unseen, distinct⟩ := List.nodup_cons.mp distinct
  rw [erased]
  refine ⟨handles.enough, ?_, ?_, ?_, ?_, distinct, ?_⟩
  · intro blkno inside
    rcases List.mem_cons.mp inside with rfl | old
    · exact bounds.2
    · exact handles.bounded blkno old
  · intro blkno inside
    exact List.mem_cons_of_mem _ (handles.advised blkno inside)
  · intro other inside
    exact List.mem_cons_of_mem _ (handles.adding other (older other inside))
  · intro other inside otherBuf otherNew
    obtain ⟨otherOutside, otherBounds⟩ :=
      handles.extended other (older other inside) otherBuf otherNew
    refine ⟨?_, otherBounds⟩
    intro inRing
    rcases List.mem_cons.mp inRing with rfl | old
    · exact unseen (List.mem_filterMap.mpr ⟨other, inside, otherNew⟩)
    · exact otherOutside old
  · intro addr inside
    obtain ⟨inRing, rest⟩ := handles.addresses addr inside
    exact ⟨List.mem_cons_of_mem _ inRing, rest⟩

section

variable (invariant : queue.Invariant spare live)

include invariant

theorem Invariant.finishAdd (index : Nat) :
    ∃ nextSpare nextLive, (queue.finishAdd index).Invariant nextSpare nextLive := by
  cases found : queue.adding[index]? with
  | none => exact ⟨spare, live, by simpa [RecycleQueue.finishAdd, found] using invariant⟩
  | some pending =>
    obtain ⟨block, xid, start, newBuf⟩ := pending
    cases newBuf with
    | none => exact ⟨spare, live, by simpa [RecycleQueue.finishAdd, found] using invariant⟩
    | some newBuf =>
      have member := List.mem_of_getElem? found
      have startIn := invariant.handles.adding _ member
      obtain ⟨outside, low, -⟩ := invariant.handles.extended _ member newBuf rfl
      obtain ⟨pages, buf, nextSpare, nextLive, moves, shrunk, bufIn, held, last⟩ :=
        invariant.arranged.moveToEndpoint startIn invariant.ring_length_le false
      replace last := last rfl
      have handles := invariant.handles.finish found rfl
      obtain ⟨linked, heldLinked, unusedLinked⟩ := shrunk.arranged.linkNewPage last
        (shrunk.sameRing ▸ outside) (le_trans (by decide) low)
      have same : ∀ blkno, blkno ∈ newBuf :: nextSpare ++ nextLive ↔ blkno ∈ newBuf :: (spare ++ live) := by
        intro blkno
        rw [List.cons_append, shrunk.sameRing]
      have fewer : ∀ addr ∈ queue.addresses,
          (recycleQueueLinkNewPage pages buf newBuf addr.queueBuf).header.freeItems ≤
            (queue.pages addr.queueBuf).header.freeItems := by
        intro addr inside
        have inRing := (invariant.handles.addresses addr inside).1
        rw [unusedLinked _ (shrunk.sameRing ▸ inRing), shrunk.unused _ inRing]
      have heldNow : heldOn (recycleQueueLinkNewPage pages buf newBuf) nextLive + queue.gone =
          queue.added := by
        rw [heldLinked, held, invariant.held]
      simp only [RecycleQueue.finishAdd, found, moves]
      split
      · rename_i space
        exact ⟨newBuf :: nextSpare, nextLive, handles.insertAt linked heldNow same fewer
          (List.mem_of_getLast? last) space block xid⟩
      · rename_i full
        exact ⟨nextSpare, nextLive ++ [newBuf], handles.insertNext linked heldNow same fewer last
          (not_not.mp full) block xid⟩

theorem Invariant.getEndpointPage {start : Nat} (member : start ∈ spare ++ live) (needHead : Bool) :
    ∃ nextSpare nextLive, (queue.getEndpointPage start needHead).Invariant nextSpare nextLive := by
  obtain ⟨pages, buf, nextSpare, nextLive, moves, shrunk, bufIn, held, -⟩ :=
    invariant.arranged.moveToEndpoint member invariant.ring_length_le needHead
  simp only [RecycleQueue.getEndpointPage, moves]
  refine ⟨nextSpare, nextLive, shrunk.arranged, held ▸ invariant.held, ?_⟩
  refine (invariant.handles.advise bufIn).withPages (fun blkno => by rw [shrunk.sameRing]) ?_
    queue.added queue.gone
  intro addr inside
  exact (shrunk.unused _ (invariant.handles.addresses addr inside).1).le

theorem Invariant.extend (index : Nat) : (queue.extend index).Invariant spare live := by
  have handles := invariant.handles
  simp only [RecycleQueue.extend]
  split
  · rename_i pending found
    split
    · rename_i unextended
      obtain ⟨front, back, -, split, replaced, -⟩ := split_at_index found
      have member := List.mem_of_getElem? found
      have known : ∀ other ∈ front ++ back, other ∈ queue.adding := by
        intro other inside
        rw [split]
        simp only [List.mem_append, List.mem_cons] at inside ⊢
        tauto
      have oldOrNew : ∀ other ∈ front ++ { pending with newBuf := some queue.nblocks } :: back,
          other ∈ front ++ back ∨ other = { pending with newBuf := some queue.nblocks } := by
        intro other inside
        simp only [List.mem_append, List.mem_cons] at inside ⊢
        tauto
      refine ⟨invariant.arranged, invariant.held, ?_⟩
      rw [replaced]
      refine ⟨handles.enough.trans (Nat.le_succ _), ?_, handles.advised, ?_, ?_, ?_, handles.addresses⟩
      · intro blkno inside
        exact (handles.bounded blkno inside).trans (Nat.lt_succ_self _)
      · intro other inside
        rcases oldOrNew other inside with old | rfl
        · exact handles.adding other (known other old)
        · exact handles.adding pending member
      · intro other inside newBuf new
        rcases oldOrNew other inside with old | rfl
        · obtain ⟨outside, low, high⟩ := handles.extended other (known other old) newBuf new
          exact ⟨outside, low, high.trans (Nat.lt_succ_self _)⟩
        · obtain rfl : queue.nblocks = newBuf := by simpa using new
          refine ⟨?_, handles.enough, Nat.lt_succ_self _⟩
          intro inRing
          exact absurd (handles.bounded _ inRing) (lt_irrefl _)
      · have distinct := handles.distinct
        rw [split] at distinct
        simp only [List.filterMap_append, List.filterMap_cons, unextended] at distinct
        simp only [List.filterMap_append, List.filterMap_cons]
        rw [List.nodup_middle, ← List.filterMap_append] at *
        refine List.nodup_cons.mpr ⟨?_, by simpa using distinct⟩
        intro inside
        obtain ⟨other, old, new⟩ := List.mem_filterMap.mp inside
        exact absurd (handles.extended other (known other old) _ new).2.2 (lt_irrefl _)
    · exact invariant
  · exact invariant

theorem Invariant.otherForkExtends : Invariant { queue with nblocks := queue.nblocks + 1 } spare live := by
  have handles := invariant.handles
  refine ⟨invariant.arranged, invariant.held, handles.enough.trans (Nat.le_succ _), ?_,
    handles.advised, handles.adding, ?_, handles.distinct, handles.addresses⟩
  · intro blkno inside
    exact (handles.bounded blkno inside).trans (Nat.lt_succ_self _)
  · intro pending inside newBuf new
    obtain ⟨outside, low, high⟩ := handles.extended pending inside newBuf new
    exact ⟨outside, low, high.trans (Nat.lt_succ_self _)⟩

theorem Invariant.stepNextPage_mem (steps : Nat) :
    ∀ {start : Nat}, start ∈ spare ++ live → queue.stepNextPage start steps ∈ spare ++ live := by
  induction steps with
  | zero =>
    intro start member
    exact member
  | succ steps ih =>
    intro start member
    exact ih (invariant.arranged.ring.next_mem member)

theorem Invariant.getAvailable {buf : Nat} (member : buf ∈ spare ++ live) (offset : Nat) :
    (queue.getAvailable buf offset).Invariant spare live := by
  have handles := invariant.handles
  simp only [RecycleQueue.getAvailable]
  split
  · rename_i found
    refine ⟨invariant.arranged, invariant.held, handles.enough, handles.bounded, handles.advised,
      handles.adding, handles.extended, handles.distinct, ?_⟩
    intro addr inside
    rcases List.mem_cons.mp inside with rfl | old
    · obtain ⟨low, high⟩ := (invariant.arranged.wellFormed buf member).offset_bounds found.1
      exact ⟨member, low, high, found.2⟩
    · exact handles.addresses addr old
  · exact invariant

theorem Invariant.invalidate {buf : Nat} (member : buf ∈ spare ++ live) (offset : Nat) :
    (queue.invalidate buf offset).Invariant spare live := by
  simp only [RecycleQueue.invalidate]
  split
  · rename_i found
    have inLive := invariant.arranged.live_of_items member (List.ne_nil_of_mem found.1)
    obtain ⟨wellFormed, endpoints, offsets, blocks, unused⟩ :=
      (invariant.arranged.wellFormed buf member).invalidate found.1 found.2
    obtain ⟨others, heldBefore, heldAfter⟩ :=
      heldOn_modify queue.pages invariant.arranged.live_nodup inLive
    refine ⟨invariant.arranged.modify (·.invalidateItem offset) endpoints wellFormed (Or.inl inLive), ?_, ?_⟩
    · rw [heldAfter, ← invariant.held, heldBefore, Multiset.coe_eq_coe.mpr blocks,
        ← Multiset.cons_coe, Multiset.cons_add, Multiset.cons_add, Multiset.add_cons]
    · refine invariant.handles.withPages (fun _ => Iff.rfl) ?_ _ _
      intro addr inside
      by_cases atBuf : addr.queueBuf = buf
      · rw [atBuf, modifyPage_self, unused]
      · rw [modifyPage_of_ne atBuf]
  · exact invariant

end

theorem Handles.forget (handles : queue.Handles ring) (index : Nat) :
    Handles { queue with addresses := queue.addresses.eraseIdx index } ring :=
  ⟨handles.enough, handles.bounded, handles.advised, handles.adding, handles.extended,
    handles.distinct, fun addr inside => handles.addresses addr (List.mem_of_mem_eraseIdx inside)⟩

theorem Invariant.discardPage (invariant : queue.Invariant spare live) (index : Nat) :
    ∃ nextSpare nextLive, (queue.discardPage index).Invariant nextSpare nextLive := by
  simp only [RecycleQueue.discardPage]
  split
  · exact ⟨spare, live, invariant⟩
  · rename_i addr found
    have handles := invariant.handles.forget index
    obtain ⟨inRing, low, high, valid⟩ :=
      invariant.handles.addresses addr (List.mem_of_getElem? found)
    split
    · exact ⟨spare, live, invariant.arranged, invariant.held, handles⟩
    · rename_i mine
      split
      · exact ⟨spare, live, invariant.arranged, invariant.held, handles⟩
      · rename_i contents
        have used := (invariant.arranged.wellFormed addr.queueBuf inRing).used_of_contents
          ⟨low, high⟩ contents
        obtain ⟨_, _, shrunkLeft, heldLeft, usedLeft, blknoLeft⟩ :=
          Arranged.removeInvalidSide (·.prev) (fun layout inside normal =>
              ⟨layout.prev_used inside normal, (layout.neighbours_apart inside).1 normal⟩)
            ubtRecycleMaxItems invariant.arranged inRing used
        obtain ⟨_, _, shrunkRight, heldRight, usedRight, blknoRight⟩ :=
          Arranged.removeInvalidSide (·.next) (fun layout inside normal =>
              ⟨layout.next_used inside normal, (layout.neighbours_apart inside).2.1 normal⟩)
            ubtRecycleMaxItems shrunkLeft.arranged (shrunkLeft.sameRing ▸ inRing) usedLeft
        have shrunkBoth := shrunkLeft.trans shrunkRight
        obtain ⟨nextSpare, nextLive, shrunkSelf, heldSelf, -, -⟩ :=
          shrunkRight.arranged.removeOneItem (shrunkBoth.sameRing ▸ inRing) usedRight
        have shrunk := shrunkBoth.trans shrunkSelf
        refine ⟨nextSpare, nextLive, shrunk.arranged, ?_, ?_⟩
        · have before := invariant.held
          rw [heldRight, heldLeft, blknoRight, blknoLeft] at heldSelf
          rw [heldSelf] at before
          split
          · rename_i invalid
            simpa [invalid] using before
          · rename_i isValid
            have same : ((queue.pages addr.queueBuf).items addr.offset).blkno = addr.indexBlkno := by
              by_contra different
              exact mine ⟨different, isValid⟩
            rw [if_neg isValid, same] at before
            rw [← before, Multiset.add_cons]
            simp
        · refine handles.withPages (fun blkno => by rw [shrunk.sameRing]) ?_ _ _
          intro other inside
          exact (shrunk.unused _ (handles.addresses other inside).1).le

variable (fork : Fin 2)

theorem initializeQueue_arranged :
    Arranged initRecycleQueueInitialPage [fork.val + 2, fork.val + 4] [fork.val] := by
  have small := fork.isLt
  refine ⟨by simp, by simp, by simp, ?_, ?_, ?_, ?_, ?_⟩
  · refine ⟨fork.val + 2, fork.val, rfl, ?_, ?_, ?_, ?_, ?_, ?_, rfl⟩ <;>
      simp only [nextBlknoOf, prevBlknoOf, initRecycleQueueInitialPage, initRecycleQueuePage,
        minRecycleQueueBlockNumber] <;> omega
  · intro blkno inside
    simp only [List.cons_append, List.nil_append, List.mem_cons, List.not_mem_nil, or_false] at inside
    simp only [initRecycleQueueInitialPage, initRecycleQueuePage, isMetaPage, decide_eq_true_eq,
      List.head?_cons, Option.some.injEq]
    omega
  · intro blkno inside
    simp only [List.cons_append, List.nil_append, List.mem_cons, List.not_mem_nil, or_false] at inside
    simp only [initRecycleQueueInitialPage, initRecycleQueuePage, isMetaPage, decide_eq_true_eq,
      List.getLast?_singleton, Option.some.injEq]
    omega
  · intro blkno _
    exact (initRecycleQueuePage_layout _ _ _).wellFormed
  · intro blkno _
    exact (initRecycleQueuePage_layout _ _ _).itemOffsets_eq

theorem initializeQueue_invariant :
    (initializeQueue fork).Invariant [fork.val + 2, fork.val + 4] [fork.val] := by
  have small := fork.isLt
  have empty : (initRecycleQueueInitialPage fork.val).heldBlocks = [] :=
    heldBlocks_eq_nil (initRecycleQueuePage_layout _ _ _).itemOffsets_eq
  refine ⟨initializeQueue_arranged fork,
    by simp [initializeQueue, heldOn, empty], le_rfl, ?_, ?_, ?_, ?_, ?_, ?_⟩
  · intro blkno inside
    simp only [List.cons_append, List.nil_append, List.mem_cons, List.not_mem_nil, or_false] at inside
    simp only [initializeQueue, minRecycleQueueBlockNumber]
    omega
  · intro blkno inside
    have atFork : blkno = fork.val := by simpa [initializeQueue] using inside
    simp [atFork]
  · simp [initializeQueue]
  · simp [initializeQueue]
  · simp [initializeQueue]
  · simp [initializeQueue]

/-- One event keeps the queue well arranged, with the pages divided anew. -/
theorem Invariant.step {queue : RecycleQueue} {spare live : List Nat}
    (invariant : queue.Invariant spare live) (event : QueueEvent) :
    ∃ nextSpare nextLive, (queue.step event).Invariant nextSpare nextLive := by
  have known : ∀ {start buf : Nat}, queue.advised[start]? = some buf → buf ∈ spare ++ live :=
    fun found => invariant.handles.advised _ (List.mem_of_getElem? found)
  cases event with
  | addPage start block xid =>
    cases found : queue.advised[start]? with
    | none => exact ⟨spare, live, by simpa [RecycleQueue.step, found] using invariant⟩
    | some buf => simpa [RecycleQueue.step, found] using invariant.addPage (known found) block xid
  | extend index => exact ⟨spare, live, invariant.extend index⟩
  | otherForkExtends => exact ⟨spare, live, invariant.otherForkExtends⟩
  | finishAdd index => exact invariant.finishAdd index
  | moveToEndpoint start needHead =>
    cases found : queue.advised[start]? with
    | none => exact ⟨spare, live, by simpa [RecycleQueue.step, found] using invariant⟩
    | some buf =>
      simpa [RecycleQueue.step, found] using invariant.getEndpointPage (known found) needHead
  | getAvailable start steps offset =>
    cases found : queue.advised[start]? with
    | none => exact ⟨spare, live, by simpa [RecycleQueue.step, found] using invariant⟩
    | some buf =>
      refine ⟨spare, live, ?_⟩
      simpa [RecycleQueue.step, found] using
        invariant.getAvailable (invariant.stepNextPage_mem steps (known found)) offset
  | invalidate start steps offset =>
    cases found : queue.advised[start]? with
    | none => exact ⟨spare, live, by simpa [RecycleQueue.step, found] using invariant⟩
    | some buf =>
      refine ⟨spare, live, ?_⟩
      simpa [RecycleQueue.step, found] using
        invariant.invalidate (invariant.stepNextPage_mem steps (known found)) offset
  | discardPage index => exact invariant.discardPage index

theorem run_invariant (events : List QueueEvent) :
    ∃ spare live, (run RecycleQueue.step (initializeQueue fork) events).Invariant spare live :=
  Lib.run_invariant (fun queue : RecycleQueue => ∃ spare live, queue.Invariant spare live)
    (fun _ event held => by
      obtain ⟨spare, live, invariant⟩ := held
      exact invariant.step event)
    ⟨_, _, initializeQueue_invariant fork⟩ events

end RecycleQueue

/-- In every reachable state the pages of a queue form one ring with one head and one tail page,
every page is well formed, and the blocks on the pages from head to tail are those added and neither
discarded nor invalidated since. No operation misses the endpoint it looks for. -/
theorem recycleQueue_arranged (fork : Fin 2) (events : List QueueEvent) : ∃ spare live,
      Arranged (run RecycleQueue.step (RecycleQueue.initializeQueue fork) events).pages spare live ∧
      heldOn (run RecycleQueue.step (RecycleQueue.initializeQueue fork) events).pages live +
          (run RecycleQueue.step (RecycleQueue.initializeQueue fork) events).gone =
        (run RecycleQueue.step (RecycleQueue.initializeQueue fork) events).added ∧
      ∀ start ∈ (run RecycleQueue.step (RecycleQueue.initializeQueue fork) events).advised, ∀ needHead,
        (moveToEndpointPage (run RecycleQueue.step (RecycleQueue.initializeQueue fork) events).pages
          (run RecycleQueue.step (RecycleQueue.initializeQueue fork) events).nblocks start
          needHead).isSome := by
  obtain ⟨spare, live, invariant⟩ := RecycleQueue.run_invariant fork events
  refine ⟨spare, live, invariant.arranged, invariant.held, ?_⟩
  intro start advised needHead
  obtain ⟨pages, buf, -, -, moves, -⟩ := invariant.arranged.moveToEndpoint
    (invariant.handles.advised start advised) invariant.ring_length_le needHead
  rw [moves]
  rfl

end OpenGauss.UBTree
