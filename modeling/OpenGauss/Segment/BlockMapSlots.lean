import OpenGauss.Segment.SegmentHead

namespace OpenGauss.Segment

open Function (update_of_ne update_self)

namespace BlockMapTree

variable {tree : BlockMapTree} {count extentId other start page : Nat}

@[simp] theorem setInversePointer_location (tree : BlockMapTree) (size : ExtentSize)
    (extent special extentId : Nat) :
    (tree.setInversePointer size extent special).segExtentLocation extentId =
      tree.segExtentLocation extentId := rfl

@[simp] theorem countExtent_location (tree : BlockMapTree) (newExtent extentId : Nat) :
    (tree.countExtent newExtent).segExtentLocation extentId = tree.segExtentLocation extentId := rfl

theorem countExtent_nextents (room : tree.head.nextents < maxExtents) (newExtent : Nat) :
    (tree.countExtent newExtent).head.nextents = tree.head.nextents + 1 := by
  rw [maxExtents_eq] at room
  exact Nat.mod_eq_of_lt (by omega)

/-- The level 0 pages of the first `count` extents are different pages. -/
def PagesApart (tree : BlockMapTree) (count : Nat) : Prop :=
  ∀ slot other, slot ≠ other → headerLevel0Slots + slot * level0PageSlots < count →
    headerLevel0Slots + other * level0PageSlots < count →
    tree.head.level1Slots slot ≠ tree.head.level1Slots other

/-- The slot of the extent is in the head, or in a page that was created for one of the first `count`. -/
def Reached (count extentId : Nat) : Prop :=
  extentId < headerLevel0Slots ∨ headerLevel0Slots + extentIdToLevel1Slot extentId * level0PageSlots < count

theorem reached_of_lt (before : extentId < count) : Reached count extentId := by
  rcases Nat.lt_or_ge extentId headerLevel0Slots with inHead | behind
  · exact Or.inl inHead
  · right
    simp only [extentIdToLevel1Slot, headerLevel0Slots, level0PageSlots] at *
    omega

/-- The place of an extent behind the head, from its slots. -/
theorem extentId_eq (behind : headerLevel0Slots ≤ extentId) :
    headerLevel0Slots + extentIdToLevel1Slot extentId * level0PageSlots +
      extentIdToLevel0PageOffset extentId = extentId := by
  simp only [extentIdToLevel1Slot, extentIdToLevel0PageOffset, headerLevel0Slots, level0PageSlots] at *
  omega

theorem segExtentLocation_behind (behind : headerLevel0Slots ≤ extentId) (room : extentId < maxExtents) :
    tree.segExtentLocation extentId =
      some (tree.level0Pages (tree.head.level1Slots (extentIdToLevel1Slot extentId))
        (extentIdToLevel0PageOffset extentId)) := by
  rw [segExtentLocation, if_neg (Nat.not_lt.mpr behind), if_pos (extentIdToLevel1Slot_lt room)]

theorem segExtentLocation_inHead (inHead : extentId < headerLevel0Slots) :
    tree.segExtentLocation extentId = some (tree.head.level0Slots extentId) := if_pos inHead

theorem setLevel0Slot_location (inHead : extentId < headerLevel0Slots) :
    (tree.setLevel0Slot extentId start).segExtentLocation other =
      if other = extentId then some start else tree.segExtentLocation other := by
  by_cases same : other = extentId
  · subst same
    rw [if_pos rfl, segExtentLocation_inHead inHead, setLevel0Slot]
    exact congrArg some (update_self _ _ _)
  · rw [if_neg same, segExtentLocation, segExtentLocation, setLevel0Slot]
    dsimp only
    rw [update_of_ne same]

/-- An extent is recorded on the page of its slot; the others stay where they were. -/
theorem segRecordNewExtentOnLevel0Page_spec (apart : tree.PagesApart count)
    (behind : headerLevel0Slots ≤ extentId) (room : extentId < maxExtents)
    (reached : Reached count extentId) (start : Nat) :
    ∃ later, tree.segRecordNewExtentOnLevel0Page extentId start = some later ∧
      later.head = tree.head ∧ later.segExtentLocation extentId = some start ∧
      ∀ other < maxExtents, Reached count other → other ≠ extentId →
        later.segExtentLocation other = tree.segExtentLocation other := by
  rw [segRecordNewExtentOnLevel0Page, if_pos (extentIdToLevel1Slot_lt room)]
  refine ⟨_, rfl, rfl, ?_, ?_⟩
  · rw [segExtentLocation_behind behind room]
    dsimp only
    rw [update_self, update_self]
  · intro other inside reached' different
    rcases Nat.lt_or_ge other headerLevel0Slots with inHead | behind'
    · rw [segExtentLocation_inHead inHead, segExtentLocation_inHead inHead]
    · rw [segExtentLocation_behind behind' inside, segExtentLocation_behind behind' inside]
      dsimp only
      by_cases slot : extentIdToLevel1Slot other = extentIdToLevel1Slot extentId
      · have offset : extentIdToLevel0PageOffset other ≠ extentIdToLevel0PageOffset extentId :=
          fun offset => different (slots_inj behind' behind slot offset)
        rw [slot, update_self, update_of_ne offset]
      · have pages := apart _ _ slot (reached'.resolve_left (Nat.not_lt.mpr behind'))
          (reached.resolve_left (Nat.not_lt.mpr behind))
        rw [update_of_ne pages]

/-- A new page holds the first extent of its slot; the others stay where they were. -/
theorem segInitNewLevel0Page_spec (apart : tree.PagesApart extentId)
    (behind : headerLevel0Slots ≤ extentId) (room : extentId < maxExtents)
    (first : extentIdToLevel0PageOffset extentId = 0)
    (fresh : ∀ slot, headerLevel0Slots + slot * level0PageSlots < extentId →
      tree.head.level1Slots slot ≠ page) (start : Nat) :
    ∃ later, tree.segInitNewLevel0Page extentId page start = some later ∧
      later.head.nextents = tree.head.nextents ∧ later.head.totalBlocks = tree.head.totalBlocks ∧
      later.segExtentLocation extentId = some start ∧
      (∀ other < extentId, later.segExtentLocation other = tree.segExtentLocation other) ∧
      later.PagesApart (extentId + 1) := by
  have place := extentId_eq behind
  rw [segInitNewLevel0Page, if_pos (extentIdToLevel1Slot_lt room)]
  refine ⟨_, rfl, rfl, rfl, ?_, ?_, ?_⟩
  · rw [segExtentLocation_behind behind room, first]
    dsimp only
    rw [update_self, update_self, update_self]
  · intro other before
    rcases Nat.lt_or_ge other headerLevel0Slots with inHead | behind'
    · rw [segExtentLocation_inHead inHead, segExtentLocation_inHead inHead]
    · have earlier := (reached_of_lt before).resolve_left (Nat.not_lt.mpr behind')
      have slot : extentIdToLevel1Slot other ≠ extentIdToLevel1Slot extentId := by
        intro slot
        rw [slot] at earlier
        omega
      rw [segExtentLocation_behind behind' (before.trans room),
        segExtentLocation_behind behind' (before.trans room)]
      dsimp only
      rw [update_of_ne slot, update_of_ne (fresh _ earlier)]
  · intro slot other different below below'
    have known : ∀ slot, slot ≠ extentIdToLevel1Slot extentId →
        headerLevel0Slots + slot * level0PageSlots < extentId + 1 →
        headerLevel0Slots + slot * level0PageSlots < extentId := by
      intro slot different below
      refine Nat.lt_of_le_of_ne (Nat.le_of_lt_succ below) fun same => different ?_
      have product : slot * level0PageSlots = extentIdToLevel1Slot extentId * level0PageSlots := by
        omega
      exact Nat.eq_of_mul_eq_mul_right (by decide) product
    dsimp only
    by_cases last : slot = extentIdToLevel1Slot extentId
    · rw [last] at different
      rw [last, update_self, update_of_ne different.symm]
      exact (fresh _ (known _ different.symm below')).symm
    · rw [update_of_ne last]
      by_cases last' : other = extentIdToLevel1Slot extentId
      · rw [last', update_self]
        exact fresh _ (known _ last below)
      · rw [update_of_ne last']
        exact apart _ _ different (known _ last below) (known _ last' below')

theorem PagesApart.mono (apart : tree.PagesApart count) (fewer : other ≤ count) : tree.PagesApart other :=
  fun slot slot' different below below' =>
    apart slot slot' different (below.trans_le fewer) (below'.trans_le fewer)

/-- Behind the head, pages are needed for one more extent only where a page starts. -/
theorem PagesApart.succ (apart : tree.PagesApart count)
    (inPage : count < headerLevel0Slots ∨ extentIdToLevel0PageOffset count ≠ 0) :
    tree.PagesApart (count + 1) := by
  have earlier : ∀ slot, headerLevel0Slots + slot * level0PageSlots < count + 1 →
      headerLevel0Slots + slot * level0PageSlots < count := by
    intro slot below
    refine Nat.lt_of_le_of_ne (Nat.le_of_lt_succ below) fun same => ?_
    rcases inPage with inHead | offset
    · omega
    · refine offset ?_
      rw [← same, extentIdToLevel0PageOffset, Nat.add_sub_cancel_left, Nat.mul_mod_left]
  exact fun slot other different below below' =>
    apart slot other different (earlier slot below) (earlier other below')

/-- `seg_extend_segment` records one more extent behind those before. -/
theorem segExtendSegment_spec (room : tree.head.nextents < maxExtents)
    (apart : tree.PagesApart tree.head.nextents)
    (fresh : ∀ slot, headerLevel0Slots + slot * level0PageSlots < tree.head.nextents →
      tree.head.level1Slots slot ≠ page) (newExtent : Nat) :
    ∃ later, tree.segExtendSegment newExtent page = some later ∧
      later.head.nextents = tree.head.nextents + 1 ∧
      later.head.totalBlocks =
        uint32 (tree.head.totalBlocks + (extentSizeByCount tree.head.nextents).blocks) ∧
      later.segExtentLocation tree.head.nextents = some newExtent ∧
      (∀ other < tree.head.nextents, later.segExtentLocation other = tree.segExtentLocation other) ∧
      later.PagesApart (tree.head.nextents + 1) := by
  have counted := countExtent_nextents room newExtent
  have kept : (tree.countExtent newExtent).PagesApart tree.head.nextents := apart
  simp only [segExtendSegment]
  split
  · rename_i inHead
    refine ⟨_, rfl, counted, rfl, ?_, ?_, kept.succ (Or.inl inHead)⟩
    · rw [setLevel0Slot_location inHead, if_pos rfl]
    · intro other before
      rw [setLevel0Slot_location inHead, if_neg (Nat.ne_of_lt before), countExtent_location]
  · rename_i notInHead
    have behind := Nat.not_lt.mp notInHead
    split
    · rename_i required
      have pointed : ((tree.countExtent newExtent).setInversePointer .size1 page
          (specialData tree.head.nextents)).PagesApart tree.head.nextents := apart
      obtain ⟨later, done, nextents, totalBlocks, located, others, apart'⟩ :=
        segInitNewLevel0Page_spec pointed behind room ((requireNewLevel0Page_iff behind).mp required)
          fresh newExtent
      exact ⟨later, done, nextents.trans counted, totalBlocks, located, others, apart'⟩
    · rename_i inPage
      rw [requireNewLevel0Page_iff behind] at inPage
      have apart' := kept.succ (Or.inr inPage)
      obtain ⟨later, done, head, located, others⟩ :=
        segRecordNewExtentOnLevel0Page_spec apart' behind room (reached_of_lt (Nat.lt_succ_self _)) newExtent
      refine ⟨later, done, by rw [head, counted], by rw [head]; rfl, located, ?_, ?_⟩
      · intro other before
        exact others other (before.trans room) (reached_of_lt (before.trans (Nat.lt_succ_self _)))
          (Nat.ne_of_lt before)
      · intro slot other different below below'
        rw [head]
        exact apart' slot other different below below'

/-- `free_last_extent` leaves the extents before the last one. -/
theorem freeLastExtent_spec (present : tree.head.nextents = count + 1) (room : count < maxExtents)
    (apart : tree.PagesApart (count + 1)) :
    ∃ later, tree.freeLastExtent = Option.some later ∧ later.head.nextents = count ∧ later.head.totalBlocks =
        uint32 (tree.head.totalBlocks + 4294967296 - (extentSizeByCount count).blocks) ∧
      (∀ other < count, later.segExtentLocation other = tree.segExtentLocation other) ∧
      later.PagesApart count := by
  have known : ∃ location, tree.segExtentLocation count = Option.some location := by
    rcases Nat.lt_or_ge count headerLevel0Slots with inHead | behind
    · exact ⟨_, segExtentLocation_inHead inHead⟩
    · exact ⟨_, segExtentLocation_behind behind room⟩
  obtain ⟨location, located⟩ := known
  simp only [freeLastExtent, present, Nat.add_sub_cancel, located, Option.bind_some]
  split
  · rename_i required
    have behind : headerLevel0Slots ≤ count := by
      by_contra inHead
      rw [requireNewLevel0Page, if_pos (Nat.not_le.mp inHead)] at required
      cases required
    have first := (requireNewLevel0Page_iff behind).mp required
    have place := extentId_eq behind
    rw [if_pos (extentIdToLevel1Slot_lt room)]
    have other_slot : ∀ slot, headerLevel0Slots + slot * level0PageSlots < count →
        slot ≠ extentIdToLevel1Slot count := by
      rintro slot below rfl
      omega
    refine ⟨_, rfl, rfl, rfl, ?_, ?_⟩
    · intro other before
      rcases Nat.lt_or_ge other headerLevel0Slots with inHead | behind'
      · rw [segExtentLocation_inHead inHead, segExtentLocation_inHead inHead]
      · have earlier := (reached_of_lt before).resolve_left (Nat.not_lt.mpr behind')
        rw [segExtentLocation_behind behind' (before.trans room),
          segExtentLocation_behind behind' (before.trans room)]
        dsimp only
        rw [update_of_ne (other_slot _ earlier)]
    · intro slot other different below below'
      dsimp only
      rw [update_of_ne (other_slot _ below), update_of_ne (other_slot _ below')]
      exact apart.mono (Nat.le_succ count) _ _ different below below'
  · exact ⟨_, rfl, rfl, rfl, fun _ _ => rfl, apart.mono (Nat.le_succ count)⟩

/-- `move_data_extent` records the new extent in the place of the old one. -/
theorem moveDataExtent_spec {size : ExtentSize} {extent : Nat} (room : tree.head.nextents ≤ maxExtents)
    (apart : tree.PagesApart tree.head.nextents)
    (need : tree.needMove size extent = some (some extentId)) (newExtent : Nat) :
    extentId < tree.head.nextents ∧
    ∃ later, tree.moveDataExtent size extent newExtent = some later ∧
      later.head.nextents = tree.head.nextents ∧ later.head.totalBlocks = tree.head.totalBlocks ∧
      later.segExtentLocation extentId = some newExtent ∧
      (∀ other < tree.head.nextents, other ≠ extentId →
        later.segExtentLocation other = tree.segExtentLocation other) ∧
      later.PagesApart tree.head.nextents := by
  have inside : extentId < tree.head.nextents := by
    rw [needMove] at need
    split at need
    · cases need
    · split at need
      · cases need
      · rename_i inside
        obtain ⟨location, -, same⟩ := Option.map_eq_some_iff.mp need
        split at same
        · cases same
          exact Nat.not_le.mp inside
        · cases same
  refine ⟨inside, ?_⟩
  simp only [moveDataExtent, need, Option.bind_some]
  split
  · rename_i inHead
    refine ⟨_, rfl, rfl, rfl, ?_, ?_, apart⟩
    · rw [setLevel0Slot_location inHead, if_pos rfl]
    · intro other _ different
      rw [setLevel0Slot_location inHead, if_neg different, setInversePointer_location]
  · rename_i notInHead
    have pointed : (tree.setInversePointer size newExtent extentId).PagesApart tree.head.nextents := apart
    obtain ⟨later, done, head, located, others⟩ :=
      segRecordNewExtentOnLevel0Page_spec pointed (Nat.not_lt.mp notInHead) (inside.trans_le room)
        (reached_of_lt inside) newExtent
    refine ⟨later, done, by rw [head]; rfl, by rw [head]; rfl, located, ?_, ?_⟩
    · intro other before different
      exact others other (before.trans_le room) (reached_of_lt before) different
    · intro slot other different below below'
      rw [head]
      exact apart slot other different below below'

end BlockMapTree

end OpenGauss.Segment
