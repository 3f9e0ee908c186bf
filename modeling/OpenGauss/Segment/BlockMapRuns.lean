import OpenGauss.Segment.BlockMapSlots

namespace OpenGauss.Segment

open BlockMapTree

namespace SegmentSystem

/-- The tree stores the recorded extents, and these share no block. -/
structure Invariant (system : SegmentSystem) : Prop where
  inside : system.outside = false
  room : system.extents.length ≤ maxExtents
  nextents : system.tree.head.nextents = system.extents.length
  totalBlocks : system.tree.head.totalBlocks = extentIdToLogicBlockNum system.extents.length
  recorded : ∀ extentId extent, system.extents[extentId]? = some extent →
    extent.size = extentSizeByCount extentId ∧ extent.start + extent.size.blocks ≤ 4294967296 ∧
      system.tree.segExtentLocation extentId = some extent.start
  disjoint : ∀ (extentId other : Nat) (first second : Extent), extentId ≠ other →
    system.extents[extentId]? = some first → system.extents[other]? = some second →
    first.size = second.size →
    first.start + first.size.blocks ≤ second.start ∨ second.start + second.size.blocks ≤ first.start
  pages : system.tree.PagesApart system.extents.length

theorem start_invariant (segHeadBlocknum : Nat) : (start segHeadBlocknum).Invariant where
  inside := rfl
  room := Nat.zero_le _
  nextents := rfl
  totalBlocks := rfl
  recorded := by simp [start]
  disjoint := by simp [start]
  pages := fun _ _ _ below => absurd below (Nat.not_lt_zero _)

variable {system : SegmentSystem}

/-- The new extent shares no block with any that is recorded. -/
theorem Fresh.apart {size : ExtentSize} {newExtent extentId : Nat} {extent : Extent}
    (fresh : system.Fresh size newExtent) (found : system.extents[extentId]? = some extent)
    (same : extent.size = size) :
    newExtent + size.blocks ≤ extent.start ∨ extent.start + size.blocks ≤ newExtent :=
  fresh.2 extent (List.mem_of_getElem? found) same

theorem getElem?_concat {extents : List Extent} {last extent : Extent} {extentId : Nat}
    (found : (extents ++ [last])[extentId]? = some extent) :
    extents[extentId]? = some extent ∧ extentId < extents.length ∨
      extentId = extents.length ∧ extent = last := by
  rcases Nat.lt_or_ge extentId extents.length with old | new
  · rw [List.getElem?_append_left old] at found
    exact Or.inl ⟨found, old⟩
  · rw [List.getElem?_append_right new, List.getElem?_singleton] at found
    split at found
    · cases found
      exact Or.inr ⟨by omega, rfl⟩
    · cases found

section

variable (inv : system.Invariant)
include inv

theorem Invariant.extend {newExtent level0Page : Nat}
    (fresh : system.Disjoint (.extend newExtent level0Page))
    (room : system.tree.head.nextents < maxExtents) :
    (system.step (.extend newExtent level0Page)).Invariant := by
  obtain ⟨newFresh, pageFresh⟩ := fresh
  have pages := inv.pages
  rw [← inv.nextents] at pages
  obtain ⟨later, done, nextents, totalBlocks, located, others, apart⟩ :=
    segExtendSegment_spec room pages pageFresh newExtent
  rw [step, done, advance_some]
  rw [inv.nextents] at room newFresh nextents totalBlocks located others apart ⊢
  have length : ∀ last : Extent, (system.extents ++ [last]).length = system.extents.length + 1 :=
    fun last => by rw [List.length_append, List.length_singleton]
  refine ⟨inv.inside, ?_, ?_, ?_, ?_, ?_, ?_⟩
  · rw [length]
    exact room
  · rw [length]
    exact nextents
  · have bound := extentIdToLogicBlockNum_le room
    rw [extentIdToLogicBlockNum_succ room] at bound
    rw [length, extentIdToLogicBlockNum_succ room]
    dsimp only
    rw [totalBlocks, inv.totalBlocks]
    exact Nat.mod_eq_of_lt (by omega)
  · intro extentId extent found
    rcases getElem?_concat found with ⟨old, before⟩ | ⟨rfl, rfl⟩
    · obtain ⟨size, small, stored⟩ := inv.recorded extentId extent old
      exact ⟨size, small, (others extentId before).trans stored⟩
    · exact ⟨rfl, newFresh.1, located⟩
  · intro extentId other first second different foundFirst foundSecond size
    rcases getElem?_concat foundFirst with ⟨old, -⟩ | ⟨rfl, rfl⟩
    · rcases getElem?_concat foundSecond with ⟨old', -⟩ | ⟨rfl, rfl⟩
      · exact inv.disjoint extentId other first second different old old' size
      · dsimp only at size ⊢
        rw [size]
        exact (newFresh.apart old size).symm
    · rcases getElem?_concat foundSecond with ⟨old', -⟩ | ⟨rfl, rfl⟩
      · rw [← size]
        exact newFresh.apart old' size.symm
      · exact absurd rfl different
  · rw [length]
    exact apart

theorem Invariant.freeLast (pos : 0 < system.tree.head.nextents) :
    (system.advance system.tree.freeLastExtent system.extents.dropLast).Invariant := by
  have nextents := inv.nextents
  obtain ⟨count, counted⟩ : ∃ count, system.extents.length = count + 1 :=
    ⟨system.extents.length - 1, by omega⟩
  have room := inv.room
  have pages := inv.pages
  rw [counted] at room pages nextents
  obtain ⟨later, done, fewer, totalBlocks, others, apart⟩ := freeLastExtent_spec nextents room pages
  have length : system.extents.dropLast.length = count := by
    rw [List.length_dropLast, counted, Nat.add_sub_cancel]
  have entries : ∀ {extentId : Nat} {extent : Extent},
      system.extents.dropLast[extentId]? = Option.some extent →
      extentId < count ∧ system.extents[extentId]? = Option.some extent := by
    intro extentId extent found
    rw [List.getElem?_dropLast] at found
    split at found
    · exact ⟨by omega, found⟩
    · cases found
  rw [done, advance_some]
  refine ⟨inv.inside, ?_, ?_, ?_, ?_, ?_, ?_⟩
  · rw [length]
    exact Nat.le_of_lt room
  · rw [length]
    exact fewer
  · have bound := extentIdToLogicBlockNum_le (Nat.le_of_lt room)
    have next := extentIdToLogicBlockNum_succ room
    dsimp only
    rw [length, totalBlocks, inv.totalBlocks, counted, next, uint32,
      show extentIdToLogicBlockNum count + (extentSizeByCount count).blocks + 4294967296 -
        (extentSizeByCount count).blocks = extentIdToLogicBlockNum count + 4294967296 by omega,
      Nat.add_mod_right]
    exact Nat.mod_eq_of_lt (by omega)
  · intro extentId extent found
    obtain ⟨before, old⟩ := entries found
    obtain ⟨size, small, stored⟩ := inv.recorded extentId extent old
    exact ⟨size, small, (others extentId before).trans stored⟩
  · intro extentId other first second different foundFirst foundSecond size
    exact inv.disjoint extentId other first second different (entries foundFirst).2
      (entries foundSecond).2 size
  · rw [length]
    exact apart

/-- The place of the extent that the inverse pointer names is always in the map. -/
theorem Invariant.needMove_some (size : ExtentSize) (extent : Nat) :
    ∃ need, system.tree.needMove size extent = some need := by
  rw [needMove]
  split
  · exact ⟨none, rfl⟩
  · rename_i extentId _
    split
    · exact ⟨none, rfl⟩
    · rename_i inside
      rw [inv.nextents] at inside
      have found := List.getElem?_eq_getElem (Nat.not_le.mp inside)
      rw [(inv.recorded _ _ found).2.2]
      exact ⟨_, rfl⟩

theorem Invariant.move {size : ExtentSize} {extent newExtent : Nat}
    (fresh : system.Fresh size newExtent)
    (group : ∀ extentId, system.tree.needMove size extent = some (some extentId) →
      extentSizeByCount extentId = size) :
    (system.step (.move size extent newExtent)).Invariant := by
  obtain ⟨need, checked⟩ := inv.needMove_some size extent
  rw [step, checked]
  cases need with
  | none =>
    rw [moveDataExtent, checked]
    exact inv
  | some moved =>
    have room := inv.room
    have pages := inv.pages
    rw [← inv.nextents] at room pages
    obtain ⟨inside, later, done, nextents, totalBlocks, located, others, apart⟩ :=
      moveDataExtent_spec room pages checked newExtent
    have sameSize := group moved checked
    rw [inv.nextents] at inside nextents others apart
    rw [done, advance_some]
    dsimp only
    have entries : ∀ {extentId : Nat} {entry : Extent},
        (system.extents.set moved ⟨size, newExtent⟩)[extentId]? = some entry →
        extentId = moved ∧ entry = ⟨size, newExtent⟩ ∨ extentId ≠ moved ∧ extentId < system.extents.length ∧
            system.extents[extentId]? = some entry := by
      intro extentId entry found
      by_cases here : extentId = moved
      · subst here
        rw [List.getElem?_set_self inside] at found
        exact Or.inl ⟨rfl, (Option.some.inj found).symm⟩
      · rw [List.getElem?_set_ne (Ne.symm here)] at found
        exact Or.inr ⟨here, (List.getElem?_eq_some_iff.mp found).1, found⟩
    refine ⟨inv.inside, ?_, ?_, ?_, ?_, ?_, ?_⟩
    · rw [List.length_set]
      exact inv.room
    · rw [List.length_set]
      exact nextents
    · rw [List.length_set]
      exact totalBlocks.trans inv.totalBlocks
    · intro extentId entry found
      rcases entries found with ⟨rfl, rfl⟩ | ⟨other, before, old⟩
      · exact ⟨sameSize.symm, fresh.1, located⟩
      · obtain ⟨entrySize, small, stored⟩ := inv.recorded extentId entry old
        exact ⟨entrySize, small, (others extentId before other).trans stored⟩
    · intro extentId other first second different foundFirst foundSecond sizes
      rcases entries foundFirst with ⟨rfl, rfl⟩ | ⟨-, -, old⟩
      · rcases entries foundSecond with ⟨rfl, rfl⟩ | ⟨-, -, old'⟩
        · exact absurd rfl different
        · rw [← sizes]
          exact fresh.apart old' sizes.symm
      · rcases entries foundSecond with ⟨rfl, rfl⟩ | ⟨-, -, old'⟩
        · dsimp only at sizes ⊢
          rw [sizes]
          exact (fresh.apart old sizes).symm
        · exact inv.disjoint extentId other first second different old old' sizes
    · rw [List.length_set]
      exact apart

theorem Invariant.step {event : SegmentEvent}
    (fresh : system.Disjoint event) (within : system.Within event) : (system.step event).Invariant := by
  cases event with
  | extend newExtent level0Page => exact inv.extend fresh within
  | freeLast =>
    rw [SegmentSystem.step]
    split
    · rename_i present
      exact inv.freeLast present
    · exact inv
  | move size extent newExtent => exact inv.move fresh within

/-- A logical block is found in the extent it belongs to. -/
theorem Invariant.mapping {logicId : Nat}
    (inside : logicId < system.tree.head.totalBlocks) :
    ∃ (extentId : Nat) (extent : Extent) (offset : Nat), system.extents[extentId]? = some extent ∧
      offset < extent.size.blocks ∧ logicId = extentIdToLogicBlockNum extentId + offset ∧
      system.tree.segLogicToPhysicMapping logicId = some ⟨extent.size, extentId, extent.start + offset⟩ := by
  rw [inv.totalBlocks] at inside
  obtain ⟨extentId, before, offset, within, rfl⟩ := exists_extent inv.room inside
  have found := List.getElem?_eq_getElem before
  obtain ⟨size, small, stored⟩ := inv.recorded _ _ found
  rw [← size] at within
  refine ⟨extentId, _, offset, found, within, rfl, ?_⟩
  rw [segLogicToPhysicMapping, segLogicPageIdToExtentId_eq (before.trans_le inv.room) (size ▸ within)]
  dsimp only
  rw [stored, size, Option.map_some, uint32, Nat.mod_eq_of_lt (by omega)]

theorem Invariant.sound : system.Sound where
  inside := inv.inside
  slots := by
    intro extentId before
    rw [inv.nextents] at before
    rcases Nat.lt_or_ge extentId headerLevel0Slots with inHead | behind
    · exact Or.inl inHead
    · exact Or.inr ⟨extentIdToLevel1Slot_lt (before.trans_le inv.room), Nat.mod_lt _ (by decide)⟩
  recorded := inv.nextents.symm
  totalBlocks := by rw [inv.totalBlocks, inv.nextents]
  mapped := fun _ inside => inv.mapping inside
  distinct := by
    intro first inFirst second inSecond different place other atFirst atSecond size same
    obtain ⟨firstId, firstExtent, firstOffset, found, within, start, mapped⟩ := inv.mapping inFirst
    obtain ⟨secondId, secondExtent, secondOffset, found', within', start', mapped'⟩ :=
      inv.mapping inSecond
    rw [mapped, Option.some.injEq] at atFirst
    rw [mapped', Option.some.injEq] at atSecond
    subst atFirst atSecond
    dsimp only at size same
    by_cases sameId : firstId = secondId
    · subst sameId
      rw [found, Option.some.injEq] at found'
      subst found'
      omega
    · rcases inv.disjoint firstId secondId firstExtent secondExtent sameId found found' size with
        before | after
      · omega
      · omega

end

/-- Over every run with disjoint extents and enough slots the block map stays in its arrays and leads
each logical block to a physical block of its own. -/
theorem blockMap_sound (segHeadBlocknum : Nat) (events : List SegmentEvent)
    (disjoint : Lib.Along step Disjoint (start segHeadBlocknum) events)
    (within : Lib.Along step Within (start segHeadBlocknum) events) :
    (Lib.run step (start segHeadBlocknum) events).Sound := by
  have both : Lib.Along step (fun system event => system.Disjoint event ∧ system.Within event)
      (start segHeadBlocknum) events := by
    rw [Lib.along_iff] at disjoint within ⊢
    exact fun before event after split =>
      ⟨disjoint before event after split, within before event after split⟩
  exact (Lib.run_invariant_along Invariant (fun _ _ allowed inv => inv.step allowed.1 allowed.2) both
    (start_invariant segHeadBlocknum)).sound

end SegmentSystem

open BlockMapTree

namespace SegmentSystem

/-- The extent with this id, at a place of its own in the file of its size. -/
def extendNext (extentId : Nat) : SegmentEvent := .extend (8192 * extentId) (extentId + 1)

variable {system : SegmentSystem} {count : Nat}

/-- The first `count` extents are recorded, each at its place. -/
structure Grown (system : SegmentSystem) (count : Nat) : Prop where
  inv : system.Invariant
  length : system.extents.length = count
  starts : ∀ extentId extent, system.extents[extentId]? = some extent → extent.start = 8192 * extentId
  pages : ∀ slot, system.tree.head.level1Slots slot ≤ count

theorem segExtendSegment_level1Slots {tree later : BlockMapTree} {newExtent page : Nat}
    (done : tree.segExtendSegment newExtent page = some later) (slot : Nat) :
    later.head.level1Slots slot = tree.head.level1Slots slot ∨ later.head.level1Slots slot = page := by
  simp only [segExtendSegment] at done
  split at done
  · cases done
    exact Or.inl rfl
  · split at done
    · rw [segInitNewLevel0Page] at done
      split at done
      · cases done
        dsimp only
        by_cases here : slot = extentIdToLevel1Slot tree.head.nextents
        · rw [here, Function.update_self]
          exact Or.inr rfl
        · rw [Function.update_of_ne here]
          exact Or.inl rfl
      · cases done
    · rw [segRecordNewExtentOnLevel0Page] at done
      split at done
      · cases done
        exact Or.inl rfl
      · cases done

theorem blocks_le (size : ExtentSize) : size.blocks ≤ 8192 := by cases size <;> decide

theorem Grown.disjoint (grown : system.Grown count) (room : count ≤ maxExtents) :
    system.Disjoint (extendNext count) := by
  rw [maxExtents_eq] at room
  refine ⟨⟨?_, ?_⟩, ?_⟩
  · have := blocks_le (extentSizeByCount system.tree.head.nextents)
    omega
  · intro extent member size
    obtain ⟨extentId, found⟩ := List.getElem?_of_mem member
    have before := (List.getElem?_eq_some_iff.mp found).1
    have small := blocks_le (extentSizeByCount system.tree.head.nextents)
    rw [grown.length] at before
    rw [grown.starts extentId extent found]
    right
    omega
  · intro slot _
    have := grown.pages slot
    omega

theorem Grown.step (grown : system.Grown count) (room : count < maxExtents) :
    (system.step (extendNext count)).Grown (count + 1) := by
  have nextents := grown.inv.nextents
  rw [grown.length] at nextents
  have within : system.Within (extendNext count) := by
    rw [Within.eq_def, extendNext]
    exact nextents ▸ room
  have inv := grown.inv.step (grown.disjoint room.le) within
  have pages := grown.inv.pages
  rw [grown.length, ← nextents] at pages
  obtain ⟨later, done, -⟩ := segExtendSegment_spec (nextents.symm ▸ room) pages
    (grown.disjoint room.le).2 (8192 * count)
  rw [extendNext, SegmentSystem.step, done, advance_some] at inv ⊢
  refine ⟨inv, ?_, ?_, ?_⟩
  · rw [List.length_append, List.length_singleton, grown.length]
  · intro extentId extent found
    rcases getElem?_concat found with ⟨old, -⟩ | ⟨rfl, rfl⟩
    · exact grown.starts extentId extent old
    · rw [grown.length]
  · intro slot
    dsimp only
    have := grown.pages slot
    rcases segExtendSegment_level1Slots done slot with same | new <;> omega

theorem run_grown (segHeadBlocknum : Nat) (room : count ≤ maxExtents) :
    Lib.Along step Disjoint (start segHeadBlocknum) ((List.range count).map extendNext) ∧
      (Lib.run step (start segHeadBlocknum) ((List.range count).map extendNext)).Grown count := by
  induction count with
  | zero => exact ⟨trivial, start_invariant _, rfl, by simp [start], fun _ => Nat.zero_le _⟩
  | succ count ih =>
    obtain ⟨along, grown⟩ := ih (Nat.le_of_lt room)
    rw [List.range_succ, List.map_append, Lib.run_append, Lib.along_append]
    exact ⟨⟨along, grown.disjoint (Nat.le_of_lt room), trivial⟩, grown.step room⟩

/-- The extent after the last one that the level 1 slots have room for. -/
theorem Grown.outside (grown : system.Grown count) (full : count = maxExtents) :
    ¬ (system.step (extendNext count)).Sound := by
  have nextents := grown.inv.nextents
  rw [grown.length] at nextents
  have refused : system.tree.segExtendSegment (8192 * count) (count + 1) = none := by
    simp only [segExtendSegment, nextents]
    rw [if_neg (by rw [full]; decide), if_pos (by rw [full]; decide)]
    exact if_neg (by rw [full]; decide)
  intro sound
  have inside := sound.inside
  rw [extendNext, SegmentSystem.step, refused] at inside
  cases inside

theorem run_outside (segHeadBlocknum : Nat) (full : count = maxExtents) :
    Lib.Along step Disjoint (start segHeadBlocknum) ((List.range (count + 1)).map extendNext) ∧
      (Lib.run step (start segHeadBlocknum)
        ((List.range count).map extendNext)).tree.head.totalBlocks + 8192 < 4294967296 ∧
      ¬ (Lib.run step (start segHeadBlocknum) ((List.range (count + 1)).map extendNext)).Sound := by
  obtain ⟨along, grown⟩ := run_grown segHeadBlocknum full.le
  rw [List.range_succ, List.map_append, List.map_singleton, Lib.run_append, Lib.along_append]
  refine ⟨⟨along, grown.disjoint full.le, trivial⟩, ?_, grown.outside full⟩
  have bound := extentIdToLogicBlockNum_le full.le
  rw [grown.inv.totalBlocks, grown.length]
  omega

/-- The first `maxExtents` extents hold 4202627072 blocks. One more is 8192 blocks below `2 ^ 32` in all,
and its level 1 slot is behind the array. -/
theorem blockMap_not_sound :
    Lib.Along step Disjoint (start 4157) ((List.range (maxExtents + 1)).map extendNext) ∧
      (Lib.run step (start 4157)
        ((List.range maxExtents).map extendNext)).tree.head.totalBlocks + 8192 < 4294967296 ∧
      ¬ (Lib.run step (start 4157) ((List.range (maxExtents + 1)).map extendNext)).Sound :=
  run_outside 4157 rfl

/-- Two extents, the second one moved, and the last one freed. -/
theorem blockMap_sound_moved : (Lib.run step (start 4157)
      [.extend 4157 4160, .extend 4165 4161, .move .size8 4165 4173, .freeLast]).Sound := by
  have inHead : ∀ {slot count : Nat}, count ≤ headerLevel0Slots →
      ¬ headerLevel0Slots + slot * level0PageSlots < count := by
    intro slot count small
    omega
  refine blockMap_sound 4157 _ ⟨⟨⟨by decide, by decide⟩, ?_⟩, ⟨⟨by decide, by decide⟩, ?_⟩,
    ⟨by decide, by decide⟩, trivial, trivial⟩ ⟨show 0 < maxExtents by decide,
    show 1 < maxExtents by decide, ?_, trivial, trivial⟩
  · exact fun slot below => absurd below (inHead (by decide))
  · exact fun slot below => absurd below (inHead (by decide))
  · intro extentId moved
    obtain rfl : 1 = extentId := Option.some.inj (Option.some.inj moved)
    decide

end SegmentSystem

end OpenGauss.Segment
