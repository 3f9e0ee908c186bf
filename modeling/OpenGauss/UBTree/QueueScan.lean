import OpenGauss.UBTree.QueueRemove
import OpenGauss.UBTree.RecycleQueue

namespace OpenGauss.UBTree

open Lib

namespace QueuePage

variable (page : QueuePage)

/-- A page whose scan finds exactly the used items of a well-formed layout. -/
def WellFormed (maxItems : Nat) : Prop :=
  ∃ free, page.Layout maxItems page.itemOffsets free

theorem scanFrom_eq {page : QueuePage} {after : Nat} (marker : isNormalOffset after = false) :
    ∀ (used : List Nat) (fuel before first last : Nat),
      Linked page.nextOf page.prevOf before first used last after →
      (∀ slot ∈ used, isNormalOffset slot = true) → used.length ≤ fuel →
      page.scanFrom fuel first = used := by
  intro used
  induction used with
  | nil =>
    intro fuel before first last linked normal enough
    cases fuel with
    | zero => rfl
    | succ fuel => simp [scanFrom, linked.1, marker]
  | cons slot rest ih =>
    intro fuel before first last linked normal enough
    obtain ⟨rfl, -, tail⟩ := linked
    cases fuel with
    | zero => simp at enough
    | succ fuel =>
      have visited := ih fuel first (page.nextOf first) last tail
        (fun other inside => normal other (by simp [inside])) (by simpa using enough)
      simp only [scanFrom, normal first (by simp), if_true]
      exact congrArg (first :: ·) visited

section

variable {page : QueuePage} {maxItems : Nat} {used free : List Nat} (layout : page.Layout maxItems used free)

include layout

theorem Layout.itemOffsets_eq : page.itemOffsets = used := by
  obtain ⟨before, after, -, afterMarker, linked⟩ := layout.linked
  exact scanFrom_eq afterMarker used _ before _ _ linked (fun slot inside => layout.normal_used inside)
    layout.used_length_le

theorem Layout.wellFormed : page.WellFormed maxItems := by
  refine ⟨free, ?_⟩
  rwa [layout.itemOffsets_eq]

end

/-- Two states of a page that hold the same items in the same order. -/
structure SameItems (page next : QueuePage) (maxItems : Nat) : Prop where
  wellFormed : next.WellFormed maxItems
  offsets : next.itemOffsets = page.itemOffsets
  blocks : next.heldBlocks = page.heldBlocks
  unused : next.header.freeItems = page.header.freeItems

theorem heldBlocks_congr {page next : QueuePage} (offsets : next.itemOffsets = page.itemOffsets)
    (blknos : ∀ slot ∈ page.itemOffsets, (next.items slot).blkno = (page.items slot).blkno) :
    next.heldBlocks = page.heldBlocks := by
  unfold heldBlocks
  rw [offsets, List.map_congr_left blknos]

/-- Changing only links of used items, in a way that keeps the used list. -/
theorem Layout.sameItems {page next : QueuePage} {maxItems : Nat} {used free : List Nat}
    (layout : page.Layout maxItems used free) (list : next.UsedList used)
    (contents : ∀ slot ∈ used, (next.items slot).xid = (page.items slot).xid ∧
      (next.items slot).blkno = (page.items slot).blkno)
    (freeItems : ∀ slot ∈ free, next.items slot = page.items slot)
    (sameFree : next.header.freeItems = page.header.freeItems ∧
      next.header.freeListHead = page.header.freeListHead) : page.SameItems next maxItems := by
  have kept : next.Layout maxItems used free := by
    refine ⟨list, ?_, ?_, ?_, layout.nodup, ?_, ?_⟩
    · refine layout.ordered.imp_of_mem ?_
      intro left right leftIn rightIn le
      rwa [(contents left leftIn).1, (contents right rightIn).1]
    · rw [sameFree.2]
      refine layout.freeList.congr ?_
      intro slot inside
      simp [nextOf, freeItems slot inside]
    · intro slot inside
      rw [freeItems slot inside]
      exact layout.freeBlank slot inside
    · rw [sameFree.1]
      exact layout.partition
    · rw [sameFree.1]
      exact layout.capacity
  have offsets : next.itemOffsets = page.itemOffsets := by
    rw [kept.itemOffsets_eq, layout.itemOffsets_eq]
  refine ⟨kept.wellFormed, offsets, heldBlocks_congr offsets ?_, sameFree.1⟩
  rw [layout.itemOffsets_eq]
  exact fun slot inside => (contents slot inside).2

section

variable {page : QueuePage} {maxItems : Nat} (wellFormed : page.WellFormed maxItems)

include wellFormed

theorem WellFormed.sameItems_header (header : QueueHeader)
    (same : header.head = page.header.head ∧ header.tail = page.header.tail ∧
      header.freeItems = page.header.freeItems ∧
      header.freeListHead = page.header.freeListHead) :
    page.SameItems { page with header } maxItems := by
  obtain ⟨free, layout⟩ := wellFormed
  obtain ⟨before, after, beforeMarker, afterMarker, linked⟩ := layout.linked
  refine layout.sameItems ⟨before, after, beforeMarker, afterMarker, ?_⟩ (fun _ _ => ⟨rfl, rfl⟩)
    (fun _ _ => rfl) ⟨same.2.2.1, same.2.2.2⟩
  simp only [same.1, same.2.1]
  exact linked

theorem WellFormed.head_normal_iff : isNormalOffset page.header.head = true ↔ page.itemOffsets ≠ [] := by
  obtain ⟨free, layout⟩ := wellFormed
  exact layout.head_normal_iff

theorem WellFormed.leftPage_head (empty : page.itemOffsets = []) :
    page.SameItems (page.changeEndpointLeftPage true) maxItems := by
  obtain ⟨free, layout⟩ := wellFormed
  refine layout.sameItems ?_ (fun _ _ => ⟨rfl, rfl⟩) (fun _ _ => rfl) ⟨rfl, rfl⟩
  rw [empty]
  exact ⟨invalidOffset, invalidOffset, rfl, rfl, rfl, rfl⟩

/-- The full tail page marks that its list goes on in another block. -/
theorem WellFormed.leftPage_tail (nonempty : page.itemOffsets ≠ []) :
    page.SameItems (page.changeEndpointLeftPage false) maxItems := by
  obtain ⟨free, layout⟩ := wellFormed
  obtain ⟨before, after, beforeMarker, afterMarker, linked⟩ := layout.linked
  have tailUsed := linked.last_mem nonempty
  have moved : ∀ slot, (page.changeEndpointLeftPage false).items slot =
      if slot = page.header.tail then { page.items slot with next := otherBlockOffset }
      else page.items slot := by
    intro slot
    by_cases same : slot = page.header.tail <;> simp [changeEndpointLeftPage, modifyItem, same]
  refine layout.sameItems ⟨before, otherBlockOffset, beforeMarker, rfl, ?_⟩ ?_ ?_ ⟨rfl, rfl⟩
  · refine linked.changeAfter nonempty layout.used_nodup ?_ ?_ ?_
    · intro slot inside
      simp only [prevOf, moved]
      split <;> rfl
    · intro slot inside different
      simp only [nextOf, moved, different, if_false]
    · simp only [nextOf, moved, if_true]
  · intro slot inside
    rw [moved]
    split <;> exact ⟨rfl, rfl⟩
  · intro slot inside
    rw [moved, if_neg]
    rintro rfl
    exact layout.used_free_apart tailUsed inside

/-- The page that becomes the head page has no item before its first one. -/
theorem WellFormed.rightPage_head : page.SameItems (page.changeEndpointRightPage true) maxItems := by
  obtain ⟨free, layout⟩ := wellFormed
  obtain ⟨before, after, beforeMarker, afterMarker, linked⟩ := layout.linked
  by_cases nonempty : page.itemOffsets = []
  · have abnormal : isNormalOffset page.header.head = false := by
      simpa [nonempty] using layout.head_normal_iff.not
    have unfolded : page.changeEndpointRightPage true =
        { page with header := { page.header with head := invalidOffset, headPage := true } } := by
      simp [changeEndpointRightPage, abnormal]
    rw [unfolded]
    refine layout.sameItems ?_ (fun _ _ => ⟨rfl, rfl⟩) (fun _ _ => rfl) ⟨rfl, rfl⟩
    rw [nonempty] at linked ⊢
    exact ⟨before, invalidOffset, beforeMarker, rfl, rfl, linked.2⟩
  · have isNormal := layout.head_normal_iff.mpr nonempty
    have headUsed := linked.first_mem nonempty
    have moved : ∀ slot, (page.changeEndpointRightPage true).items slot =
        if slot = page.header.head then { page.items slot with prev := invalidOffset }
        else page.items slot := by
      intro slot
      by_cases same : slot = page.header.head <;> simp [changeEndpointRightPage, isNormal, modifyItem, same]
    have header : (page.changeEndpointRightPage true).header = { page.header with headPage := true } := by
      simp [changeEndpointRightPage, isNormal, modifyItem]
    refine layout.sameItems ⟨invalidOffset, after, rfl, afterMarker, ?_⟩ ?_ ?_
      ⟨by rw [header], by rw [header]⟩
    · rw [header]
      refine linked.changeBefore nonempty layout.used_nodup ?_ ?_ ?_
      · intro slot inside
        simp only [nextOf, moved]
        split <;> rfl
      · intro slot inside different
        simp only [prevOf, moved, different, if_false]
      · simp only [prevOf, moved, if_true]
    · intro slot inside
      rw [moved]
      split <;> exact ⟨rfl, rfl⟩
    · intro slot inside
      rw [moved, if_neg]
      rintro rfl
      exact layout.used_free_apart headUsed inside

end

/-- The flags and the page links, which item operations leave alone. -/
def endpoints : Bool × Bool × Nat × Nat :=
  (page.header.headPage, page.header.tailPage, page.header.prevBlkno, page.header.nextBlkno)

def blocksAt (offsets : List Nat) : List Nat :=
  (offsets.map fun offset => (page.items offset).blkno).filter (· ≠ invalidBlockNumber)

theorem blocksAt_append (front back : List Nat) :
    page.blocksAt (front ++ back) = page.blocksAt front ++ page.blocksAt back := by
  simp [blocksAt]

theorem blocksAt_cons (offset : Nat) (rest : List Nat) : page.blocksAt (offset :: rest) =
      (if (page.items offset).blkno = invalidBlockNumber then []
        else [(page.items offset).blkno]) ++ page.blocksAt rest := by
  by_cases invalid : (page.items offset).blkno = invalidBlockNumber <;> simp [blocksAt, invalid]

theorem blocksAt_congr {page next : QueuePage} {offsets : List Nat}
    (same : ∀ slot ∈ offsets, (next.items slot).blkno = (page.items slot).blkno) :
    next.blocksAt offsets = page.blocksAt offsets := by
  unfold blocksAt
  rw [List.map_congr_left same]

section

variable {page : QueuePage}

theorem WellFormed.insert {maxItems : Nat} (wellFormed : page.WellFormed maxItems)
    (space : page.pageAllocateItem ≠ invalidOffset) (block : IndexBlock) (xid : Nat) :
    let next := page.insertOnRecycleQueuePage page.pageAllocateItem block.number xid
    next.WellFormed maxItems ∧ next.endpoints = page.endpoints ∧
      next.heldBlocks.Perm (block.number :: page.heldBlocks) ∧
      next.header.freeItems ≤ page.header.freeItems := by
  intro next
  obtain ⟨free, layout⟩ := wellFormed
  obtain ⟨fresh, -, -⟩ := layout.allocate space
  obtain ⟨front, back, left, right, rest, split, -, -, inserted, newLayout⟩ :=
    layout.insert space block.number xid
  have offsets : next.itemOffsets = front ++ page.pageAllocateItem :: back := newLayout.itemOffsets_eq
  have header : next.header = _ := congrArg QueuePage.header inserted
  have unmoved : ∀ slot ∈ front ++ back, (next.items slot).blkno = (page.items slot).blkno := by
    intro slot inside
    have different : slot ≠ page.pageAllocateItem := by
      rintro rfl
      exact fresh (split ▸ inside)
    simp [next, inserted, relinked, different]
  refine ⟨newLayout.wellFormed, ?_, ?_, ?_⟩
  · simp [endpoints, header, takeItem_eq]
  · have recorded : (next.items page.pageAllocateItem).blkno = block.number := by
      simp [next, inserted, relinked]
    have valid : block.number ≠ invalidBlockNumber := block.valid.ne
    have held : next.heldBlocks = page.blocksAt front ++ block.number :: page.blocksAt back := by
      rw [show next.heldBlocks = next.blocksAt next.itemOffsets from rfl, offsets, blocksAt_append,
        blocksAt_cons, recorded, if_neg valid,
        blocksAt_congr (fun slot inside => unmoved slot (List.mem_append_left back inside)),
        blocksAt_congr (fun slot inside => unmoved slot (List.mem_append_right front inside))]
      rfl
    rw [held, show page.heldBlocks = page.blocksAt page.itemOffsets from rfl, split, blocksAt_append]
    exact List.perm_middle
  · rw [header, takeItem_eq]
    simp only
    split <;> omega

variable {maxItems offset : Nat}

/-- A removal takes one item out and leaves the contents of the others alone. -/
theorem WellFormed.remove (wellFormed : page.WellFormed maxItems) (member : offset ∈ page.itemOffsets) :
    (page.removeItem offset).WellFormed maxItems ∧ (page.removeItem offset).endpoints = page.endpoints ∧
      (page.removeItem offset).itemOffsets = page.itemOffsets.erase offset ∧
      (∀ slot, slot ≠ offset → ((page.removeItem offset).items slot).blkno = (page.items slot).blkno) ∧
      page.heldBlocks.Perm ((if (page.items offset).blkno = invalidBlockNumber then []
        else [(page.items offset).blkno]) ++ (page.removeItem offset).heldBlocks) ∧
      (page.removeItem offset).header.freeItems = page.header.freeItems := by
  obtain ⟨free, layout⟩ := wellFormed
  have removed := layout.removeItem_eq member
  obtain ⟨front, back, split⟩ := List.append_of_mem member
  have newLayout := layout.remove split
  have unmoved : ∀ slot, slot ≠ offset →
      ((page.removeItem offset).items slot).blkno = (page.items slot).blkno := by
    intro slot different
    simp [removed, unlinked, different]
  have nodup := layout.used_nodup
  rw [split] at nodup
  have notFront : offset ∉ front := by
    intro inside
    exact (List.nodup_append.mp nodup).2.2 offset inside offset (by simp) rfl
  have notBack : offset ∉ back := (List.nodup_cons.mp (List.nodup_append.mp nodup).2.1).1
  have kept : ∀ offsets : List Nat, offset ∉ offsets →
      (page.removeItem offset).blocksAt offsets = page.blocksAt offsets := by
    intro offsets outside
    refine blocksAt_congr (fun slot inside => unmoved slot ?_)
    rintro rfl
    exact outside inside
  refine ⟨newLayout.wellFormed, ?_, ?_, unmoved, ?_, ?_⟩
  · simp [endpoints, removed]
  · rw [newLayout.itemOffsets_eq, split, List.erase_append_right _ notFront, List.erase_cons_head]
  · rw [show page.heldBlocks = page.blocksAt page.itemOffsets from rfl, split, blocksAt_append,
      blocksAt_cons, show (page.removeItem offset).heldBlocks =
        (page.removeItem offset).blocksAt (page.removeItem offset).itemOffsets from rfl,
      newLayout.itemOffsets_eq, blocksAt_append, kept front notFront, kept back notBack,
      ← List.append_assoc, ← List.append_assoc]
    exact List.perm_append_comm.append_right _
  · rw [removed]

/-- An invalidation forgets the block of a used item and nothing else. -/
theorem WellFormed.invalidate (wellFormed : page.WellFormed maxItems) (member : offset ∈ page.itemOffsets)
    (valid : (page.items offset).blkno ≠ invalidBlockNumber) :
    (page.invalidateItem offset).WellFormed maxItems ∧
      (page.invalidateItem offset).endpoints = page.endpoints ∧
      (page.invalidateItem offset).itemOffsets = page.itemOffsets ∧
      page.heldBlocks.Perm ((page.items offset).blkno :: (page.invalidateItem offset).heldBlocks) ∧
      (page.invalidateItem offset).header.freeItems = page.header.freeItems := by
  obtain ⟨free, layout⟩ := wellFormed
  have moved : ∀ slot, (page.invalidateItem offset).items slot =
      if slot = offset then { page.items slot with blkno := invalidBlockNumber }
      else page.items slot := by
    intro slot
    by_cases same : slot = offset <;> simp [invalidateItem, modifyItem, same]
  have next : (page.invalidateItem offset).nextOf = page.nextOf := by
    funext slot
    simp only [nextOf, moved]
    split <;> rfl
  have prev : (page.invalidateItem offset).prevOf = page.prevOf := by
    funext slot
    simp only [prevOf, moved]
    split <;> rfl
  have xid : ∀ slot, ((page.invalidateItem offset).items slot).xid = (page.items slot).xid := by
    intro slot
    rw [moved]
    split <;> rfl
  have newLayout : (page.invalidateItem offset).Layout maxItems page.itemOffsets free := by
    obtain ⟨before, after, beforeMarker, afterMarker, linked⟩ := layout.linked
    refine ⟨⟨before, after, beforeMarker, afterMarker, ?_⟩, ?_, ?_, ?_, layout.nodup,
      layout.partition, layout.capacity⟩
    · rw [next, prev]
      exact linked
    · simpa only [xid] using layout.ordered
    · rw [next]
      exact layout.freeList
    · intro slot inside
      rw [moved, if_neg]
      · exact layout.freeBlank slot inside
      · rintro rfl
        exact layout.used_free_apart member inside
  obtain ⟨front, back, split⟩ := List.append_of_mem member
  have nodup := layout.used_nodup
  rw [split] at nodup
  have notFront : offset ∉ front := by
    intro inside
    exact (List.nodup_append.mp nodup).2.2 offset inside offset (by simp) rfl
  have notBack : offset ∉ back := (List.nodup_cons.mp (List.nodup_append.mp nodup).2.1).1
  have kept : ∀ offsets : List Nat, offset ∉ offsets →
      (page.invalidateItem offset).blocksAt offsets = page.blocksAt offsets := by
    intro offsets outside
    refine blocksAt_congr (fun slot inside => ?_)
    rw [moved, if_neg]
    rintro rfl
    exact outside inside
  refine ⟨newLayout.wellFormed, rfl, newLayout.itemOffsets_eq, ?_, rfl⟩
  have marked : ((page.invalidateItem offset).items offset).blkno = invalidBlockNumber := by
    rw [moved, if_pos rfl]
  rw [show page.heldBlocks = page.blocksAt page.itemOffsets from rfl,
    show (page.invalidateItem offset).heldBlocks =
      (page.invalidateItem offset).blocksAt (page.invalidateItem offset).itemOffsets from rfl,
    newLayout.itemOffsets_eq, split, blocksAt_append, blocksAt_append, blocksAt_cons, blocksAt_cons,
    marked, if_pos rfl, if_neg valid, kept front notFront, kept back notBack]
  exact List.perm_middle

/-- A page has space as long as it does not use all of its slots. -/
theorem WellFormed.space_of_empty {maxItems : Nat}
    (wellFormed : page.WellFormed maxItems) (capacity : 0 < maxItems)
    (empty : page.itemOffsets = []) : page.pageAllocateItem ≠ invalidOffset := by
  obtain ⟨free, layout⟩ := wellFormed
  rw [empty] at layout
  intro full
  have small : maxItems ≤ 509 := layout.capacity.2
  by_cases unused : page.header.freeItems > 0
  · have bound := layout.capacity.1
    simp only [pageAllocateItem, unused, if_true, invalidOffset] at full
    omega
  · have first := (layout.partition 0).mpr ⟨by omega, capacity⟩
    have chain := layout.freeList
    cases free with
    | nil => cases first
    | cons slot rest =>
      have inside := ((layout.partition slot).mp (by simp)).2
      have notEnd : page.header.freeListHead ≠ invalidOffset := by
        rw [chain.1, invalidOffset]
        omega
      simp only [pageAllocateItem, unused, if_false, notEnd, ne_eq, not_false_eq_true, if_true] at full

theorem WellFormed.offset_bounds (wellFormed : page.WellFormed maxItems) (member : offset ∈ page.itemOffsets) :
    page.header.freeItems ≤ offset ∧ offset < maxItems := by
  obtain ⟨free, layout⟩ := wellFormed
  exact (layout.partition offset).mp (List.mem_append_left free member)

/-- A slot that left the never-used pool and is not blank is in use. -/
theorem WellFormed.used_of_contents (wellFormed : page.WellFormed maxItems)
    (bounds : page.header.freeItems ≤ offset ∧ offset < maxItems)
    (contents : ¬ ((page.items offset).blkno = invalidBlockNumber ∧ (page.items offset).xid =
      invalidTransactionId)) : offset ∈ page.itemOffsets := by
  obtain ⟨free, layout⟩ := wellFormed
  rcases List.mem_append.mp ((layout.partition offset).mpr bounds) with used | inFree
  · exact used
  · exact absurd (layout.freeBlank offset inFree) contents

end

end QueuePage

end OpenGauss.UBTree
