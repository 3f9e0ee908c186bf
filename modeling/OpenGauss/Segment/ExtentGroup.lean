import OpenGauss.Lib.Bitmap

/-! Extent groups: the file of all extents of one size, with its map head and its groups of map
pages. Block numbers are cut to 32 bits where the source computes them. -/

namespace OpenGauss.Segment

def mapHeadPage : Nat := 2

def mapGroupSize : Nat := 64

/-- `DF_MAP_BIT_CNT`: the bits of a page without its two headers. -/
def mapBitCnt : Nat := 65248

def mapGroupExtents : Nat := 4175872

/-- `IPBLOCK_GROUP_SIZE`: pages of inverse pointers behind the map pages of a group. -/
def ipBlockGroupSize : Nat := 4090

/-- `DF_MAX_MAP_GROUP_CNT`: the length of the array of groups in the map head. -/
def maxMapGroupCnt : Nat := 33

def fileExtendStepBlocks : Nat := 16384

def invalidBlockNumber : Nat := 4294967295

def uint32 (value : Nat) : Nat := value % 4294967296

inductive ExtentSize where
  | size1 | size8 | size128 | size1024 | size8192
  deriving DecidableEq, Repr

def ExtentSize.blocks : ExtentSize → Nat
  | size1 => 1
  | size8 => 8
  | size128 => 128
  | size1024 => 1024
  | size8192 => 8192

structure MapPage where
  firstPage : Nat := 0
  freeBegin : Nat := 0
  dirtyLast : Nat := 0
  freeBits : Nat := 0
  bitmap : Nat → Bool := fun _ => false

structure MapGroup where
  firstMap : Nat
  freePage : Nat
  pageCount : Nat
  deriving DecidableEq, Repr

/-- `df_map_head_t`; the list is as long as `group_count` says. -/
structure MapHead where
  bitUnit : Nat
  freeGroup : Nat := 0
  allocatedExtents : Nat := 0
  highWaterMark : Nat := 0
  groups : List MapGroup := []
  deriving DecidableEq, Repr

structure MapPageImage where
  firstPage : Nat
  freeBegin : Nat
  dirtyLast : Nat
  freeBits : Nat
  deriving DecidableEq, Repr

structure SpaceAllocateExtent where
  hwm : Nat
  allocatedExtents : Nat
  freeGroup : Nat
  freePage : Nat
  deriving DecidableEq, Repr

inductive ExtentXlog where
  | initMapPage (block firstPage : Nat)
  | addNewGroup (firstMap groupCount groupSize : Nat)
  | setBitmap (block bitId : Nat) (image : MapPageImage)
  | freeBitmap (block bitId : Nat) (image : MapPageImage)
  | mapHeadAllocatedExtents (xlogData : SpaceAllocateExtent)
  deriving DecidableEq, Repr

/-- `SegExtentGroup`, with the pages it reads and the log it has written. -/
structure ExtentGroup where
  extentSize : ExtentSize
  totalBlocks : Nat
  mapHead : MapHead
  mapPages : Nat → MapPage := fun _ => {}
  xlog : List ExtentXlog := []

/-- `eg_init_data_files`: a file of the first step, and `eg_init_map_head_page_content`. -/
def initDataFiles (extentSize : ExtentSize) : ExtentGroup where
  extentSize := extentSize
  totalBlocks := fileExtendStepBlocks
  mapHead := { bitUnit := extentSize.blocks }

namespace MapPage

def image (page : MapPage) : MapPageImage where
  firstPage := page.firstPage
  freeBegin := page.freeBegin
  dirtyLast := page.dirtyLast
  freeBits := page.freeBits

/-- `eg_set_bitmap_page`; `none` is a failed `SegmentCheck`. -/
def setBitmapPage (page : MapPage) (bitId : Nat) : Option MapPage :=
  if page.bitmap bitId = false then
    some
      { page with
        bitmap := Function.update page.bitmap bitId true
        freeBits := page.freeBits - 1
        freeBegin := if page.freeBegin = bitId then page.freeBegin + 1 else page.freeBegin
        dirtyLast := if page.dirtyLast < bitId then bitId else page.dirtyLast }
  else none

def unsetBitmapPage (page : MapPage) (bitId : Nat) : Option MapPage :=
  if page.bitmap bitId = true then
    some
      { page with
        bitmap := Function.update page.bitmap bitId false
        freeBits := page.freeBits + 1
        freeBegin := if bitId < page.freeBegin then bitId else page.freeBegin }
  else none

end MapPage

def initBitmapPageContent (firstPage : Nat) : MapPage where
  firstPage := firstPage
  freeBits := mapBitCnt

/-- `SpaceMapLocation`; the group is `none` where the source leaves it zero. -/
structure SpaceMapLocation where
  group : Option MapGroup := none
  mapId : Nat := 0
  bitId : Nat := 0
  mapGroup : Nat := 0
  deriving DecidableEq, Repr

/-- The loop of `eg_locate_map_by_pageid` from group `index` on. The result so far keeps the group
that was looked at last. -/
def locateFrom (extentSize : ExtentSize) (bitUnit pageId : Nat) (result : SpaceMapLocation) :
    Nat → List MapGroup → SpaceMapLocation
  | _, [] => result
  | index, group :: rest =>
    let result := { result with group := some group, mapGroup := index }
    let pageStart := uint32 (group.firstMap + mapGroupSize + ipBlockGroupSize)
    let pageEnd := uint32 (pageStart + uint32 (mapGroupExtents * extentSize.blocks))
    if pageStart ≤ pageId ∧ pageId < pageEnd then
      { result with
        mapId := (pageId - pageStart) / bitUnit / mapBitCnt
        bitId := (pageId - pageStart) / bitUnit % mapBitCnt }
    else locateFrom extentSize bitUnit pageId result (index + 1) rest

namespace ExtentGroup

variable (eg : ExtentGroup)

def locateMapByPageid (pageId : Nat) : SpaceMapLocation :=
  locateFrom eg.extentSize eg.mapHead.bitUnit pageId {} 0 eg.mapHead.groups

/-- `eg_next_group_start`; `none` is a failed `SegmentCheck`. -/
def nextGroupStart : Option Nat :=
  eg.mapHead.groups.getLast?.map fun last =>
    uint32 (last.firstMap + last.pageCount + ipBlockGroupSize +
      uint32 (mapGroupExtents * eg.mapHead.bitUnit))

def initBitmapPage (pageno firstPage : Nat) : ExtentGroup :=
  { eg with
    mapPages := Function.update eg.mapPages pageno (initBitmapPageContent firstPage)
    xlog := eg.xlog ++ [.initMapPage pageno firstPage] }

def initBitmapPages (eg : ExtentGroup) (pageno dataStart : Nat) : Nat → ExtentGroup
  | 0 => eg
  | count + 1 =>
    (eg.initBitmapPage pageno dataStart).initBitmapPages (uint32 (pageno + 1))
      (uint32 (dataStart + mapBitCnt * eg.extentSize.blocks)) count

/-- The end of `eg_add_map_group`. The source does not look at the length of the array of groups. -/
def registerMapGroup (pageno : Nat) : ExtentGroup :=
  let group : MapGroup := { firstMap := pageno, freePage := 0, pageCount := mapGroupSize }
  { eg with
    mapHead := { eg.mapHead with groups := eg.mapHead.groups ++ [group] }
    xlog := eg.xlog ++ [.addNewGroup pageno (eg.mapHead.groups.length + 1) mapGroupSize] }

def addMapGroup (pageno : Nat) : ExtentGroup :=
  (eg.initBitmapPages pageno (uint32 (pageno + mapGroupSize + ipBlockGroupSize))
    mapGroupSize).registerMapGroup pageno

/-- What the search for an extent comes back with: the group, `result` and `*target_file_size`. -/
structure Attempt where
  eg : ExtentGroup
  result : Nat := invalidBlockNumber
  targetFileSize : Nat := 0

def allocExtentFromMapInternal (mapBlock bitId mapGroup freePage : Nat) : Option Attempt :=
  let page := eg.mapPages mapBlock
  let size := eg.extentSize.blocks
  let pagenum := uint32 (page.firstPage + bitId * eg.mapHead.bitUnit)
  if eg.totalBlocks < uint32 (pagenum + size) then
    some { eg, targetFileSize := uint32 (pagenum + size) }
  else
    (page.setBitmapPage bitId).map fun newPage =>
      let hwm := uint32 (pagenum + size)
      let head :=
        { eg.mapHead with
          allocatedExtents := eg.mapHead.allocatedExtents + 1
          freeGroup := mapGroup
          groups := eg.mapHead.groups.modify mapGroup fun group => { group with freePage := freePage }
          highWaterMark :=
            if eg.mapHead.highWaterMark < hwm then hwm else eg.mapHead.highWaterMark }
      { eg :=
          { eg with
            mapHead := head
            mapPages := Function.update eg.mapPages mapBlock newPage
            xlog := eg.xlog ++ [.setBitmap mapBlock bitId newPage.image, .mapHeadAllocatedExtents
                  { hwm := head.highWaterMark
                    allocatedExtents := head.allocatedExtents
                    freeGroup := mapGroup
                    freePage := freePage }] }
        result := pagenum }

def allocExtentFromMap (mapPageId mapGroup freePage : Nat) : Option Attempt :=
  let page := eg.mapPages mapPageId
  if page.freeBits = 0 then some { eg }
  else
    let curr := Lib.findClear page.bitmap (mapBitCnt - page.freeBegin) page.freeBegin
    if mapBitCnt ≤ curr then some { eg }
    else eg.allocExtentFromMapInternal mapPageId curr mapGroup freePage

/-- The search is over: an extent was found, or the file is too short for it. -/
def Attempt.decided (attempt : Attempt) : Bool :=
  attempt.result != invalidBlockNumber || decide (0 < attempt.targetFileSize)

def tryPages (eg : ExtentGroup) (mapGroup : Nat) (group : MapGroup) (page : Nat) : Nat → Option Attempt
  | 0 => some { eg }
  | count + 1 =>
    (eg.allocExtentFromMap (uint32 (group.firstMap + page)) mapGroup page).bind fun attempt =>
      if attempt.decided then some attempt
      else attempt.eg.tryPages mapGroup group (page + 1) count

def tryGroups (eg : ExtentGroup) (index : Nat) : List MapGroup → Option Attempt
  | [] => some { eg }
  | group :: rest =>
    if group.freePage < group.pageCount then
      (eg.tryPages index group group.freePage (group.pageCount - group.freePage)).bind fun attempt =>
        if attempt.decided then some attempt else attempt.eg.tryGroups (index + 1) rest
    else none

/-- `eg_alloc_preassigned_block`, with the `PANIC` on a block in use. A location that is invalid
(`MapLocationIsInvalid`) makes the caller add a group. -/
def allocPreassignedBlock (preassignedBlock : Nat) : Option Attempt :=
  let location := eg.locateMapByPageid preassignedBlock
  match location.group with
  | none => some { eg }
  | some group =>
    if group.firstMap = 0 then some { eg }
    else
      let mapBlock := uint32 (location.mapId + group.firstMap)
      let page := eg.mapPages mapBlock
      let extentEnd :=
        uint32 (uint32 (page.firstPage + location.bitId * eg.mapHead.bitUnit) + eg.extentSize.blocks)
      if page.bitmap location.bitId = true then none
      else if eg.totalBlocks < extentEnd then some { eg, targetFileSize := extentEnd }
      else
        match eg.mapHead.groups[eg.mapHead.freeGroup]? with
        | none => none
        | some free =>
          if free.freePage < free.pageCount then
            (eg.allocExtentFromMapInternal mapBlock location.bitId eg.mapHead.freeGroup
              free.freePage).map fun attempt => { attempt with result := preassignedBlock }
          else none

def tryAllocExtent (preassignedBlock : Nat) : Option Attempt :=
  if eg.mapHead.freeGroup < eg.mapHead.groups.length then
    if preassignedBlock ≠ invalidBlockNumber then eg.allocPreassignedBlock preassignedBlock
    else
      (eg.tryGroups eg.mapHead.freeGroup (eg.mapHead.groups.drop eg.mapHead.freeGroup)).bind fun attempt =>
          if attempt.decided then some attempt
          else
            attempt.eg.nextGroupStart.map fun start =>
              let dataStart := uint32 (start + mapGroupSize + ipBlockGroupSize)
              if attempt.eg.totalBlocks < dataStart then { attempt with targetFileSize := dataStart }
              else attempt
  else none

def extendDf (targetBlocks spaceLimit : Nat) : Option ExtentGroup :=
  let target := uint32 ((targetBlocks + fileExtendStepBlocks - 1) / fileExtendStepBlocks *
    fileExtendStepBlocks)
  if eg.totalBlocks < target then
    if spaceLimit < target then none
    else
      some
        { eg with
          totalBlocks := eg.totalBlocks +
            (target - eg.totalBlocks + fileExtendStepBlocks - 1) / fileExtendStepBlocks *
              fileExtendStepBlocks }
  else some eg

inductive AllocResult where
  | panic
  | looping
  | error (eg : ExtentGroup)
  | allocated (eg : ExtentGroup) (block : Nat)

def ensureFirstGroup : ExtentGroup :=
  if eg.mapHead.groups = [] then eg.addMapGroup (mapHeadPage + 1) else eg

/-- The loop of `eg_alloc_extent`, for `fuel` iterations. -/
def allocLoop (eg : ExtentGroup) (preassignedBlock spaceLimit : Nat) : Nat → AllocResult
  | 0 => .looping
  | fuel + 1 =>
    match eg.ensureFirstGroup.tryAllocExtent preassignedBlock with
    | none => .panic
    | some attempt =>
      if attempt.result ≠ invalidBlockNumber then .allocated attempt.eg attempt.result
      else if attempt.targetFileSize = invalidBlockNumber then .panic
      else if 0 < attempt.targetFileSize then
        match attempt.eg.extendDf attempt.targetFileSize spaceLimit with
        | none => .error attempt.eg
        | some eg => eg.allocLoop preassignedBlock spaceLimit fuel
      else
        match attempt.eg.nextGroupStart with
        | none => .panic
        | some start => (attempt.eg.addMapGroup start).allocLoop preassignedBlock spaceLimit fuel

/-- `eg_alloc_extent`. No call that returns takes more iterations: at most the file is extended for
a new group, the group is added, and the file is extended for the extent. -/
def allocExtent (preassignedBlock spaceLimit : Nat) : AllocResult :=
  eg.allocLoop preassignedBlock spaceLimit 4

/-- `eg_free_extent`; `none` is a `PANIC`. -/
def freeExtent (blocknum : Nat) : Option ExtentGroup :=
  let location := eg.locateMapByPageid blocknum
  match location.group with
  | none => none
  | some group =>
    if group.firstMap = 0 then none
    else
      let mapBlock := uint32 (location.mapId + group.firstMap)
      ((eg.mapPages mapBlock).unsetBitmapPage location.bitId).map fun newPage =>
        let head :=
          { eg.mapHead with
            allocatedExtents := eg.mapHead.allocatedExtents - 1
            freeGroup :=
              if location.mapGroup < eg.mapHead.freeGroup then location.mapGroup
              else eg.mapHead.freeGroup
            groups := eg.mapHead.groups.modify location.mapGroup fun group =>
              { group with
                freePage :=
                  if location.mapId < group.freePage then location.mapId else group.freePage } }
        { eg with
          mapHead := head
          mapPages := Function.update eg.mapPages mapBlock newPage
          xlog := eg.xlog ++ [.freeBitmap mapBlock location.bitId newPage.image, .mapHeadAllocatedExtents
                { hwm := head.highWaterMark
                  allocatedExtents := head.allocatedExtents
                  freeGroup := head.freeGroup
                  freePage := (head.groups[head.freeGroup]?.map MapGroup.freePage).getD 0 }] }

end ExtentGroup

end OpenGauss.Segment
