import OpenGauss.Lib.Lists
import OpenGauss.Segment.ExtentSystem

/-! Replay of the log of an extent group. Every page of the replica is replayed from all of its
records; full page images are left out. -/

namespace OpenGauss.Segment

/-- The pages that the log is about. -/
structure ExtentPages where
  mapHead : MapHead
  mapPages : Nat → MapPage

def ExtentGroup.pages (eg : ExtentGroup) : ExtentPages where
  mapHead := eg.mapHead
  mapPages := eg.mapPages

namespace MapPage

/-- The fields that the replay copies from the logged page. -/
def copyImage (page : MapPage) (image : MapPageImage) : MapPage :=
  { page with
    dirtyLast := image.dirtyLast
    freeBegin := image.freeBegin
    freeBits := image.freeBits }

/-- `redo_set_bitmap` without the extension of the file; `none` is a `PANIC`. -/
def redoSetBitmap (page : MapPage) (bitId : Nat) (image : MapPageImage) : Option MapPage :=
  if page.firstPage ≠ image.firstPage then none
  else if page.bitmap bitId = true then none
  else some { page.copyImage image with bitmap := Function.update page.bitmap bitId true }

def redoUnsetBitmap (page : MapPage) (bitId : Nat) (image : MapPageImage) : Option MapPage :=
  if page.firstPage ≠ image.firstPage then none
  else if page.bitmap bitId = false then none
  else some { page.copyImage image with bitmap := Function.update page.bitmap bitId false }

end MapPage

namespace MapHead

/-- `redo_add_new_group`; the array of groups was zero behind the old count. -/
def redoAddNewGroup (head : MapHead) (firstMap groupCount groupSize : Nat) : Option MapHead :=
  if 0 < groupCount then
    let unused : MapGroup := { firstMap := 0, freePage := 0, pageCount := 0 }
    let groups := (head.groups ++ List.replicate (groupCount - head.groups.length) unused).take groupCount
    some
      { head with
        groups := groups.set (groupCount - 1)
          { firstMap := firstMap, freePage := 0, pageCount := groupSize } }
  else none

def redoAllocatedExtents (head : MapHead) (xlogData : SpaceAllocateExtent) : MapHead :=
  { head with
    allocatedExtents := xlogData.allocatedExtents
    freeGroup := xlogData.freeGroup
    groups := head.groups.modify xlogData.freeGroup fun group =>
      { group with freePage := xlogData.freePage }
    highWaterMark := xlogData.hwm }

end MapHead

namespace ExtentPages

def redo (pages : ExtentPages) : ExtentXlog → Option ExtentPages
  | .initMapPage block firstPage =>
    some
      { pages with
        mapPages := Function.update pages.mapPages block (initBitmapPageContent firstPage) }
  | .addNewGroup firstMap groupCount groupSize =>
    (pages.mapHead.redoAddNewGroup firstMap groupCount groupSize).map fun mapHead =>
      { pages with mapHead }
  | .setBitmap block bitId image =>
    ((pages.mapPages block).redoSetBitmap bitId image).map fun page =>
      { pages with mapPages := Function.update pages.mapPages block page }
  | .freeBitmap block bitId image =>
    ((pages.mapPages block).redoUnsetBitmap bitId image).map fun page =>
      { pages with mapPages := Function.update pages.mapPages block page }
  | .mapHeadAllocatedExtents xlogData =>
    some { pages with mapHead := pages.mapHead.redoAllocatedExtents xlogData }

def replay (pages : ExtentPages) (records : List ExtentXlog) : Option ExtentPages :=
  records.foldlM redo pages

theorem replay_append (pages : ExtentPages) (before after : List ExtentXlog) :
    pages.replay (before ++ after) = (pages.replay before).bind fun middle => middle.replay after := by
  rw [replay, List.foldlM_append]
  rfl

end ExtentPages

/-- The replay of what was logged since `eg` leads from its pages to those of `later`. -/
def Replays (eg later : ExtentGroup) : Prop :=
  ∃ records, later.xlog = eg.xlog ++ records ∧ eg.pages.replay records = some later.pages

section Replays

variable {eg middle later : ExtentGroup}

theorem Replays.refl (eg : ExtentGroup) : Replays eg eg := ⟨[], (List.append_nil _).symm, rfl⟩

theorem Replays.trans (first : Replays eg middle) (second : Replays middle later) :
    Replays eg later := by
  obtain ⟨before, logged, replayed⟩ := first
  obtain ⟨after, logged', replayed'⟩ := second
  refine ⟨before ++ after, by rw [logged', logged, List.append_assoc], ?_⟩
  rw [ExtentPages.replay_append, replayed, Option.bind_some, replayed']

end Replays

theorem MapPage.redoSetBitmap_image {page newPage : MapPage} {bitId : Nat}
    (set : page.setBitmapPage bitId = some newPage) :
    page.redoSetBitmap bitId newPage.image = some newPage := by
  rw [setBitmapPage] at set
  split at set
  · rename_i clear
    cases set
    have used : ¬ page.bitmap bitId = true := by simp [clear]
    exact (if_neg (not_not_intro rfl)).trans (if_neg used)
  · cases set

theorem MapPage.redoUnsetBitmap_image {page newPage : MapPage} {bitId : Nat}
    (unset : page.unsetBitmapPage bitId = some newPage) :
    page.redoUnsetBitmap bitId newPage.image = some newPage := by
  rw [unsetBitmapPage] at unset
  split at unset
  · rename_i used
    cases unset
    have clear : ¬ page.bitmap bitId = false := by simp [used]
    exact (if_neg (not_not_intro rfl)).trans (if_neg clear)
  · cases unset

/-- The group that is added behind the others. -/
theorem MapHead.redoAddNewGroup_next (head : MapHead) (firstMap groupSize : Nat) :
    head.redoAddNewGroup firstMap (head.groups.length + 1) groupSize =
      some { head with groups := head.groups ++ [⟨firstMap, 0, groupSize⟩] } := by
  rw [redoAddNewGroup, if_pos (Nat.succ_pos _)]
  dsimp only
  rw [Nat.add_sub_cancel_left, List.replicate_one, List.take_of_length_le (by simp),
    Nat.add_sub_cancel, List.set_append_right _ _ le_rfl, Nat.sub_self, List.set_cons_zero]

namespace ExtentGroup

variable {eg : ExtentGroup}

theorem initBitmapPage_replays (eg : ExtentGroup) (pageno firstPage : Nat) :
    Replays eg (eg.initBitmapPage pageno firstPage) := ⟨_, rfl, rfl⟩

theorem initBitmapPages_replays (eg : ExtentGroup) (pageno dataStart count : Nat) :
    Replays eg (eg.initBitmapPages pageno dataStart count) := by
  induction count generalizing eg pageno dataStart with
  | zero => exact .refl eg
  | succ count ih => exact (eg.initBitmapPage_replays pageno dataStart).trans (ih _ _ _)

theorem registerMapGroup_replays (eg : ExtentGroup) (pageno : Nat) :
    Replays eg (eg.registerMapGroup pageno) := by
  refine ⟨_, rfl, ?_⟩
  rw [ExtentPages.replay, List.foldlM_cons, ExtentPages.redo]
  dsimp only [pages]
  rw [MapHead.redoAddNewGroup_next]
  rfl

theorem addMapGroup_replays (eg : ExtentGroup) (pageno : Nat) : Replays eg (eg.addMapGroup pageno) :=
  (eg.initBitmapPages_replays _ _ _).trans (registerMapGroup_replays _ pageno)

theorem ensureFirstGroup_replays (eg : ExtentGroup) : Replays eg eg.ensureFirstGroup := by
  rw [ensureFirstGroup]
  split
  · exact eg.addMapGroup_replays _
  · exact .refl eg

theorem allocExtentFromMapInternal_replays {mapBlock bitId mapGroup freePage : Nat} {attempt : Attempt}
    (done : eg.allocExtentFromMapInternal mapBlock bitId mapGroup freePage = some attempt) :
    Replays eg attempt.eg := by
  simp only [allocExtentFromMapInternal] at done
  split at done
  · cases done
    exact .refl eg
  · obtain ⟨newPage, set, rfl⟩ := Option.map_eq_some_iff.mp done
    refine ⟨_, rfl, ?_⟩
    rw [ExtentPages.replay, List.foldlM_cons, ExtentPages.redo]
    dsimp only [pages]
    rw [MapPage.redoSetBitmap_image set]
    rfl

theorem allocExtentFromMap_replays {mapPageId mapGroup freePage : Nat} {attempt : Attempt}
    (done : eg.allocExtentFromMap mapPageId mapGroup freePage = some attempt) :
    Replays eg attempt.eg := by
  simp only [allocExtentFromMap] at done
  split at done
  · cases done
    exact .refl eg
  · split at done
    · cases done
      exact .refl eg
    · exact allocExtentFromMapInternal_replays done

theorem tryPages_replays {mapGroup : Nat} {group : MapGroup} {page count : Nat} {attempt : Attempt}
    (done : eg.tryPages mapGroup group page count = some attempt) : Replays eg attempt.eg := by
  induction count generalizing eg page with
  | zero =>
    cases done
    exact .refl eg
  | succ count ih =>
    rw [tryPages, Option.bind_eq_some_iff] at done
    obtain ⟨tried, first, rest⟩ := done
    have here := allocExtentFromMap_replays first
    split at rest
    · cases rest
      exact here
    · exact here.trans (ih rest)

theorem tryGroups_replays {index : Nat} {groups : List MapGroup} {attempt : Attempt}
    (done : eg.tryGroups index groups = some attempt) : Replays eg attempt.eg := by
  induction groups generalizing eg index with
  | nil =>
    cases done
    exact .refl eg
  | cons group rest ih =>
    rw [tryGroups] at done
    split at done
    · rw [Option.bind_eq_some_iff] at done
      obtain ⟨tried, first, rest⟩ := done
      have here := tryPages_replays first
      split at rest
      · cases rest
        exact here
      · exact here.trans (ih rest)
    · cases done

theorem allocPreassignedBlock_replays {preassignedBlock : Nat} {attempt : Attempt}
    (done : eg.allocPreassignedBlock preassignedBlock = some attempt) : Replays eg attempt.eg := by
  simp only [allocPreassignedBlock] at done
  split at done
  · cases done
    exact .refl eg
  · split at done
    · cases done
      exact .refl eg
    · split at done
      · cases done
      · split at done
        · cases done
          exact .refl eg
        · split at done
          · cases done
          · split at done
            · obtain ⟨taken, set, rfl⟩ := Option.map_eq_some_iff.mp done
              have here : Replays eg taken.eg := allocExtentFromMapInternal_replays set
              exact here
            · cases done

theorem tryAllocExtent_replays {preassignedBlock : Nat} {attempt : Attempt}
    (done : eg.tryAllocExtent preassignedBlock = some attempt) : Replays eg attempt.eg := by
  rw [tryAllocExtent] at done
  split at done
  · split at done
    · exact allocPreassignedBlock_replays done
    · obtain ⟨tried, searched, rest⟩ := Option.bind_eq_some_iff.mp done
      have here := tryGroups_replays searched
      split at rest
      · cases rest
        exact here
      · obtain ⟨start, -, rfl⟩ := Option.map_eq_some_iff.mp rest
        dsimp only
        split <;> exact here
  · cases done

section

variable {targetBlocks spaceLimit : Nat} {later : ExtentGroup}
  (done : eg.extendDf targetBlocks spaceLimit = some later)

include done

theorem extendDf_cases : later = eg ∨ ∃ totalBlocks, later = { eg with totalBlocks := totalBlocks } := by
  unfold extendDf at done
  dsimp only at done
  split_ifs at done
  · exact .inr ⟨_, (Option.some.inj done).symm⟩
  · exact .inl (Option.some.inj done).symm

theorem extendDf_replays : Replays eg later := by
  obtain rfl | ⟨totalBlocks, rfl⟩ := extendDf_cases done
  · exact .refl _
  · exact ⟨[], (List.append_nil _).symm, rfl⟩

end

/-- What a call of `eg_alloc_extent` leaves behind is replayed from its records. -/
def AllocResult.Replays (eg : ExtentGroup) : AllocResult → Prop
  | .error later => Segment.Replays eg later
  | .allocated later _ => Segment.Replays eg later
  | .panic => True
  | .looping => True

theorem AllocResult.Replays.after {middle : ExtentGroup} {result : AllocResult}
    (first : Segment.Replays eg middle) (second : AllocResult.Replays middle result) :
    AllocResult.Replays eg result := by
  cases result with
  | panic => trivial
  | looping => trivial
  | error later => exact first.trans second
  | allocated later block => exact first.trans second

theorem allocLoop_replays (eg : ExtentGroup) (preassignedBlock spaceLimit fuel : Nat) :
    AllocResult.Replays eg (eg.allocLoop preassignedBlock spaceLimit fuel) := by
  induction fuel generalizing eg with
  | zero => trivial
  | succ fuel ih =>
    rw [allocLoop]
    cases tried : eg.ensureFirstGroup.tryAllocExtent preassignedBlock with
    | none => trivial
    | some attempt =>
      have here := eg.ensureFirstGroup_replays.trans (tryAllocExtent_replays tried)
      dsimp only
      split
      · exact here
      · split
        · trivial
        · split
          · cases extended : attempt.eg.extendDf attempt.targetFileSize spaceLimit with
            | none => exact here
            | some longer => exact (ih longer).after (here.trans (extendDf_replays extended))
          · cases next : attempt.eg.nextGroupStart with
            | none => trivial
            | some start => exact (ih _).after (here.trans (addMapGroup_replays _ start))

/-- The hint of the group that an extent goes back to is logged, or does not move. -/
def FreeLogged (eg : ExtentGroup) (block : Nat) : Prop :=
  (eg.locateMapByPageid block).mapGroup ≤ eg.mapHead.freeGroup ∨
    ∀ group, eg.mapHead.groups[(eg.locateMapByPageid block).mapGroup]? = some group →
      group.freePage ≤ (eg.locateMapByPageid block).mapId

/-- The replay of a free: everything but the hints of the groups, of which only that of the free group
is in the record. -/
theorem freeExtent_replayed {block : Nat} {later : ExtentGroup} (done : eg.freeExtent block = some later) :
    ∃ records, later.xlog = eg.xlog ++ records ∧ eg.pages.replay records = some
        { mapHead :=
            { later.mapHead with
              groups := eg.mapHead.groups.modify later.mapHead.freeGroup fun group =>
                { group with
                  freePage :=
                    (later.mapHead.groups[later.mapHead.freeGroup]?.map MapGroup.freePage).getD 0 } }
          mapPages := later.mapPages } := by
  simp only [freeExtent] at done
  split at done
  · cases done
  · split at done
    · cases done
    · obtain ⟨newPage, unset, rfl⟩ := Option.map_eq_some_iff.mp done
      refine ⟨_, rfl, ?_⟩
      rw [ExtentPages.replay, List.foldlM_cons, ExtentPages.redo]
      dsimp only [pages]
      rw [MapPage.redoUnsetBitmap_image unset]
      rfl

/-- The logged hint moves the groups as the primary moved them. -/
theorem modify_freePage_logged {mapGroup mapId freeGroup : Nat} {groups : List MapGroup}
    (logged : mapGroup ≤ freeGroup ∨ ∀ group, groups[mapGroup]? = some group → group.freePage ≤ mapId) :
    (groups.modify (if mapGroup < freeGroup then mapGroup else freeGroup) fun group =>
      { group with
        freePage :=
          ((groups.modify mapGroup fun group =>
            { group with freePage := if mapId < group.freePage then mapId else group.freePage })[
              if mapGroup < freeGroup then mapGroup else freeGroup]?.map MapGroup.freePage).getD 0 }) =
      groups.modify mapGroup fun group =>
        { group with freePage := if mapId < group.freePage then mapId else group.freePage } := by
  by_cases first : mapGroup ≤ freeGroup
  · have place : (if mapGroup < freeGroup then mapGroup else freeGroup) = mapGroup := by
      split <;> omega
    rw [place, List.getElem?_modify_eq]
    refine Lib.modify_congr fun group found => ?_
    rw [found]
    rfl
  · have kept : (groups.modify mapGroup fun group =>
        { group with freePage := if mapId < group.freePage then mapId else group.freePage }) =
        groups := by
      refine Lib.modify_unchanged fun group found => ?_
      rw [if_neg (Nat.not_lt.mpr (logged.resolve_left first group found))]
    rw [kept, if_neg (by omega)]
    refine Lib.modify_unchanged fun group found => ?_
    rw [found]
    rfl

theorem freeExtent_replays {block : Nat} {later : ExtentGroup}
    (done : eg.freeExtent block = some later) (logged : eg.FreeLogged block) : Replays eg later := by
  obtain ⟨records, appended, replayed⟩ := freeExtent_replayed done
  refine ⟨records, appended, ?_⟩
  rw [replayed]
  simp only [freeExtent] at done
  split at done
  · cases done
  · split at done
    · cases done
    · obtain ⟨newPage, -, rfl⟩ := Option.map_eq_some_iff.mp done
      simp only [pages]
      rw [modify_freePage_logged logged]

end ExtentGroup

end OpenGauss.Segment
