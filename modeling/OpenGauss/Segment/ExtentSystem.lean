import OpenGauss.Lib.Run
import OpenGauss.Segment.ExtentAlloc

namespace OpenGauss.Segment

namespace ExtentGroup

variable {eg : ExtentGroup} {number : Nat}

section Locate

variable (inv : eg.MapInvariant)
include inv

/-- The range of a group, as the code computes it. -/
theorem MapInvariant.groupRange {index : Nat} {group : MapGroup}
    (found : eg.mapHead.groups[index]? = some group) :
    uint32 (group.firstMap + mapGroupSize + ipBlockGroupSize) = eg.extentSize.dataStart index ∧
      uint32 (eg.extentSize.dataStart index + uint32 (mapGroupExtents * eg.extentSize.blocks)) =
        uint32 (eg.extentSize.dataStart index + mapGroupExtents * eg.extentSize.blocks) := by
  obtain ⟨firstMap, -, -, -, fits⟩ := inv.groups index group found
  have small := fits.start_lt
  rw [eg.extentSize.extentStart_group] at small
  refine ⟨?_, ?_⟩
  · rw [firstMap]
    refine uint32_of_lt ?_
    simp only [ExtentSize.dataStart, invalidBlockNumber] at small
    omega
  · rw [Nat.add_comm, uint32_add_uint32, Nat.add_comm]

/-- The test of a group is met by the blocks of its locatable extents. -/
theorem MapInvariant.inRange_iff {index : Nat} {group : MapGroup}
    (found : eg.mapHead.groups[index]? = some group) (block : Nat) :
    uint32 (group.firstMap + mapGroupSize + ipBlockGroupSize) ≤ block ∧
        block < uint32 (uint32 (group.firstMap + mapGroupSize + ipBlockGroupSize) +
          uint32 (mapGroupExtents * eg.extentSize.blocks)) ↔
      ∃ number, number / mapGroupExtents = index ∧ eg.extentSize.Holds number block ∧
        eg.extentSize.Locatable number := by
  obtain ⟨start, stop⟩ := inv.groupRange found
  rw [start, stop]
  exact eg.extentSize.inRange_iff index block

/-- A block of an extent below the computed end of its group is found at its bit. -/
theorem MapInvariant.locateFrom_found {block : Nat} (holds : eg.extentSize.Holds number block)
    (locatable : eg.extentSize.Locatable number) {index : Nat} {rest : List MapGroup}
    (drop : eg.mapHead.groups.drop index = rest) (before : index ≤ number / mapGroupExtents)
    {group : MapGroup} (found : eg.mapHead.groups[number / mapGroupExtents]? = some group)
    (result : SpaceMapLocation) :
    locateFrom eg.extentSize eg.mapHead.bitUnit block result index rest =
      { group := some group
        mapId := number / mapBitCnt % mapGroupSize
        bitId := number % mapBitCnt
        mapGroup := number / mapGroupExtents } := by
  induction rest generalizing index result with
  | nil =>
    rw [List.drop_eq_nil_iff] at drop
    obtain ⟨inside, -⟩ := List.getElem?_eq_some_iff.mp found
    omega
  | cons head rest ih =>
    have there : eg.mapHead.groups[index]? = some head := by
      rw [← List.head?_drop, drop, List.head?_cons]
    have test := inv.inRange_iff there block
    simp only [locateFrom]
    by_cases here : index = number / mapGroupExtents
    · obtain rfl : head = group := by
        rw [here, found] at there
        exact (Option.some.inj there).symm
      have offset : (block - eg.extentSize.dataStart index) / eg.mapHead.bitUnit =
          number % mapGroupExtents := by
        obtain ⟨after, short⟩ := holds
        unfold ExtentSize.extentStart at after short
        rw [here, inv.bitUnit]
        refine Nat.div_eq_of_lt_le ?_ ?_
        · omega
        · rw [Nat.succ_mul]
          omega
      rw [if_pos (test.mpr ⟨number, here.symm, holds, locatable⟩), (inv.groupRange there).1, offset, here]
      simp only [SpaceMapLocation.mk.injEq, true_and, and_true]
      simp only [mapGroupExtents, mapBitCnt, mapGroupSize]
      omega
    · rw [if_neg]
      · refine ih ?_ (by omega) _
        rw [← List.drop_drop, drop, List.drop_one, List.tail_cons]
      · intro inside
        obtain ⟨other, group_eq, held, -⟩ := test.mp inside
        exact here (by rw [← group_eq, held.unique holds])

/-- Otherwise the last group is left in the result, with its first bit. -/
theorem MapInvariant.locateFrom_missed {block : Nat}
    (unlocatable : ∀ number, number < eg.mapHead.groups.length * mapGroupExtents →
      eg.extentSize.Holds number block → ¬ eg.extentSize.Locatable number)
    {index : Nat} {rest : List MapGroup}
    (drop : eg.mapHead.groups.drop index = rest) {result : SpaceMapLocation}
    (mapId : result.mapId = 0) (bitId : result.bitId = 0) {last : MapGroup}
    (final : rest.getLast? = some last) :
    locateFrom eg.extentSize eg.mapHead.bitUnit block result index rest =
      { group := some last
        mapId := 0
        bitId := 0
        mapGroup := index + rest.length - 1 } := by
  induction rest generalizing index result with
  | nil => cases final
  | cons head rest ih =>
    have there : eg.mapHead.groups[index]? = some head := by
      rw [← List.head?_drop, drop, List.head?_cons]
    have missed := mt (inv.inRange_iff there block).mp (by
      rintro ⟨number, group_eq, holds, locatable⟩
      obtain ⟨inside, -⟩ := List.getElem?_eq_some_iff.mp there
      refine unlocatable number ?_ holds locatable
      simp only [mapGroupExtents] at *
      omega)
    simp only [locateFrom]
    rw [if_neg missed]
    cases rest with
    | nil =>
      simp only [List.getLast?_singleton, Option.some.injEq] at final
      simp [locateFrom, mapId, bitId, final]
    | cons next others =>
      rw [List.getLast?_cons_cons] at final
      have dropped : eg.mapHead.groups.drop (index + 1) = next :: others := by
        rw [← List.drop_drop, drop, List.drop_one, List.tail_cons]
      refine (ih dropped (by exact mapId) (by exact bitId) final).trans ?_
      simp only [SpaceMapLocation.mk.injEq, true_and, List.length_cons]
      omega

/-- The map page of an extent, from the group that is found for it. -/
theorem MapInvariant.mapPlace {group : MapGroup}
    (found : eg.mapHead.groups[number / mapGroupExtents]? = some group) : group.firstMap ≠ 0 ∧
      uint32 (number / mapBitCnt % mapGroupSize + group.firstMap) =
        eg.extentSize.pageBlock (number / mapBitCnt) := by
  have start := (inv.groups _ _ found).1
  have block := inv.mapBlock_eq found (Nat.mod_lt (number / mapBitCnt) (by decide : 0 < mapGroupSize))
  have page : number / mapGroupExtents * mapGroupSize + number / mapBitCnt % mapGroupSize =
      number / mapBitCnt := by
    simp only [mapBitCnt, mapGroupExtents, mapGroupSize]
    omega
  constructor
  · rw [start, ExtentSize.groupStart, mapHeadPage]
    omega
  · rw [Nat.add_comm, block, page]

theorem MapInvariant.locate (inside : number < eg.mapHead.groups.length * mapGroupExtents)
    {block : Nat} (holds : eg.extentSize.Holds number block)
    (locatable : eg.extentSize.Locatable number) :
    ∃ group, eg.mapHead.groups[number / mapGroupExtents]? = some group ∧ eg.locateMapByPageid block =
        { group := some group
          mapId := number / mapBitCnt % mapGroupSize
          bitId := number % mapBitCnt
          mapGroup := number / mapGroupExtents } ∧
      group.firstMap ≠ 0 ∧
      uint32 (number / mapBitCnt % mapGroupSize + group.firstMap) =
        eg.extentSize.pageBlock (number / mapBitCnt) := by
  have below : number / mapGroupExtents < eg.mapHead.groups.length := by
    simp only [mapGroupExtents] at *
    omega
  have found := List.getElem?_eq_getElem below
  exact ⟨_, found, inv.locateFrom_found holds locatable rfl (Nat.zero_le _) found {}, inv.mapPlace found⟩

/-- No group holds the block where the code looks for it. -/
theorem MapInvariant.locate_missed {block : Nat}
    (unlocatable : ∀ number, number < eg.mapHead.groups.length * mapGroupExtents →
      eg.extentSize.Holds number block → ¬ eg.extentSize.Locatable number)
    {last : MapGroup} (final : eg.mapHead.groups.getLast? = some last) :
    eg.locateMapByPageid block =
      { group := some last
        mapId := 0
        bitId := 0
        mapGroup := eg.mapHead.groups.length - 1 } := by
  have missed := inv.locateFrom_missed unlocatable List.drop_zero
    (show ({} : SpaceMapLocation).mapId = 0 from rfl)
    (show ({} : SpaceMapLocation).bitId = 0 from rfl) final
  rwa [Nat.zero_add] at missed

end Locate

structure Freed (eg : ExtentGroup) (number : Nat) (later : ExtentGroup) : Prop where
  inv : later.MapInvariant
  bit_eq : later.bit = Function.update eg.bit number false
  extentSize : later.extentSize = eg.extentSize
  freeGroup : later.mapHead.freeGroup =
    if number / mapGroupExtents < eg.mapHead.freeGroup then number / mapGroupExtents
    else eg.mapHead.freeGroup
  groups : later.mapHead.groups = eg.mapHead.groups.modify (number / mapGroupExtents) fun group =>
      { group with
        freePage :=
          if number / mapBitCnt % mapGroupSize < group.freePage then number / mapBitCnt % mapGroupSize
          else group.freePage }

variable (inv : eg.MapInvariant)
include inv

theorem Freed.of_change {newPage : MapPage} {later : ExtentGroup}
    (change : BitChange eg number false newPage later)
    (inside : number < eg.mapHead.groups.length * mapGroupExtents) (set : eg.bit number = true)
    (allocated : later.mapHead.allocatedExtents = eg.mapHead.allocatedExtents - 1)
    (freeGroup : later.mapHead.freeGroup =
      if number / mapGroupExtents < eg.mapHead.freeGroup then number / mapGroupExtents
      else eg.mapHead.freeGroup)
    (groups : later.mapHead.groups = eg.mapHead.groups.modify (number / mapGroupExtents) fun group =>
        { group with
          freePage :=
            if number / mapBitCnt % mapGroupSize < group.freePage then
              number / mapBitCnt % mapGroupSize
            else group.freePage }) :
    Freed eg number later where
  inv := inv.unsetBit change inside set allocated freeGroup groups
  bit_eq := change.bit_eq
  extentSize := change.extentSize
  freeGroup := freeGroup
  groups := groups

/-- Wherever `eg_locate_map_by_pageid` points to, the extent there is freed. -/
theorem MapInvariant.freeExtent_at {block : Nat} {group : MapGroup}
    (location : eg.locateMapByPageid block =
      { group := some group
        mapId := number / mapBitCnt % mapGroupSize
        bitId := number % mapBitCnt
        mapGroup := number / mapGroupExtents })
    (inside : number < eg.mapHead.groups.length * mapGroupExtents) (set : eg.bit number = true)
    (firstMap : group.firstMap ≠ 0)
    (place : uint32 (number / mapBitCnt % mapGroupSize + group.firstMap) =
      eg.extentSize.pageBlock (number / mapBitCnt)) :
    ∃ later, eg.freeExtent block = some later ∧ Freed eg number later := by
  have page : number / mapBitCnt < eg.mapHead.groups.length * mapGroupSize := by
    simp only [mapBitCnt, mapGroupExtents, mapGroupSize] at *
    omega
  obtain ⟨newPage, unset, firstPage, bitmap, valid⟩ :=
    MapPage.unsetBitmapPage_valid (inv.pages _ page).1 set
  simp only [freeExtent, location, if_neg firstMap, place, unset, Option.map_some]
  exact ⟨_, rfl, Freed.of_change inv ⟨rfl, rfl, rfl, rfl, valid, firstPage, bitmap⟩ inside set rfl rfl rfl⟩

/-- An extent in use, below the computed end of its group, is freed. -/
theorem MapInvariant.freeExtent (set : eg.bit number = true)
    (locatable : eg.extentSize.Locatable number) :
    ∃ later, eg.freeExtent (eg.extentSize.extentStart number) = some later ∧
      Freed eg number later := by
  have inside := inv.mapped set
  obtain ⟨group, -, location, firstMap, place⟩ := inv.locate inside (.start _ _) locatable
  exact inv.freeExtent_at location inside set firstMap place

/-- A preassigned extent of an existing group is taken, unless it is in use. -/
theorem MapInvariant.tryAllocExtent_preassigned
    (inside : number < eg.mapHead.groups.length * mapGroupExtents)
    (locatable : eg.extentSize.Locatable number) (fits : eg.extentSize.Fits number) :
    (eg.bit number = true ∧ eg.tryAllocExtent (eg.extentSize.extentStart number) = none) ∨
      (eg.bit number = false ∧ ∃ attempt mapGroup freePage,
        eg.tryAllocExtent (eg.extentSize.extentStart number) = some attempt ∧
          eg.Attempts number mapGroup freePage attempt) := by
  have small := fits.start_lt
  have positive := eg.extentSize.blocks_pos
  have freeGroup : eg.mapHead.freeGroup < eg.mapHead.groups.length := by
    rcases inv.freeGroup with below | ⟨absent, -⟩
    · exact below
    · simp [absent] at inside
  obtain ⟨group, -, location, firstMap, place⟩ := inv.locate inside (.start _ _) locatable
  rw [tryAllocExtent, if_pos freeGroup, if_pos (by omega)]
  simp only [allocPreassignedBlock, location, if_neg firstMap, place, inv.pagenum inside fits, fits.stop_eq]
  cases used : eg.bit number with
  | true =>
    left
    rw [bit] at used
    exact ⟨rfl, if_pos used⟩
  | false =>
    right
    have clear := used
    rw [bit] at clear
    rw [if_neg (by simp [clear])]
    have found := List.getElem?_eq_getElem freeGroup
    obtain ⟨-, pageCount, freePage, hint, -⟩ := inv.groups _ _ found
    obtain ⟨attempt, done, attempts⟩ := allocExtentFromMapInternal_spec inv inside used fits freeGroup
      freePage hint inv.freeGroup_full
    refine ⟨rfl, ?_⟩
    rcases attempts with ⟨short, -⟩ | ⟨enough, later, rfl, took⟩
    · rw [if_pos short]
      exact ⟨_, 0, 0, rfl, Or.inl ⟨short, rfl⟩⟩
    · rw [if_neg (Nat.not_lt.mpr enough), found]
      dsimp only
      rw [if_pos (by omega), done]
      exact ⟨_, _, _, rfl, Or.inr ⟨enough, later, rfl, took⟩⟩

/-- `eg_alloc_extent` of a preassigned extent panics, or ends as without one. -/
theorem MapInvariant.allocExtent_preassigned
    (inside : number < eg.ensureFirstGroup.mapHead.groups.length * mapGroupExtents)
    (locatable : eg.extentSize.Locatable number) (fits : eg.extentSize.Fits number)
    (spaceLimit : Nat) :
    (eg.bit number = true ∧ eg.allocExtent (eg.extentSize.extentStart number) spaceLimit = .panic) ∨
    (eg.bit number = false ∧ ∃ mapGroup freePage, Outcome eg spaceLimit number mapGroup freePage
        (eg.allocExtent (eg.extentSize.extentStart number) spaceLimit)) := by
  obtain ⟨inv', present, bits, size, -, -⟩ := inv.ensureFirstGroup
  rw [ExtentGroup.allocExtent, allocLoop_ensure _ _ _ present, ← bits]
  rw [← size] at locatable fits ⊢
  rcases inv'.tryAllocExtent_preassigned inside locatable fits with
    ⟨used, panic⟩ | ⟨free, attempt, mapGroup, freePage, tried, attempts⟩
  · left
    refine ⟨used, ?_⟩
    rw [allocLoop, ensureFirstGroup_of_some present, panic]
  · right
    refine ⟨free, ?_⟩
    rcases allocLoop_attempt inv' present fits tried attempts spaceLimit 3 with
      ⟨-, later, done, took⟩ | ⟨-, ⟨refused, full⟩ | ⟨totalBlocks, enough, inv'', again⟩⟩
    · rw [done]
      exact ⟨_, _, Outcome.of_grown (.allocated rfl rfl took) bits size⟩
    · rw [refused]
      exact ⟨mapGroup, freePage, .error inv' bits size full⟩
    · rw [again]
      rcases inv''.tryAllocExtent_preassigned inside locatable fits with
        ⟨used, -⟩ | ⟨-, attempt', mapGroup', freePage', tried', attempts'⟩
      · rw [show ExtentGroup.bit { eg.ensureFirstGroup with totalBlocks } number =
          eg.ensureFirstGroup.bit number from rfl, free] at used
        cases used
      · rcases allocLoop_attempt inv'' present fits tried' attempts' spaceLimit 2 with
          ⟨-, later, done, took⟩ | ⟨short, -⟩
        · rw [show (eg.ensureFirstGroup.extentSize.extentStart number) =
            (({ eg.ensureFirstGroup with totalBlocks } : ExtentGroup).extentSize.extentStart number)
            from rfl, done]
          exact ⟨_, _, Outcome.of_grown (.allocated rfl rfl took) bits size⟩
        · exact absurd short (Nat.not_lt.mpr enough)

end ExtentGroup

inductive ExtentEvent where
  | alloc (preassignedBlock spaceLimit : Nat)
  | free (block : Nat)
  deriving DecidableEq, Repr

structure ExtentSystem where
  eg : ExtentGroup
  allocated : List Nat := []
  /-- A call has ended in a `PANIC` or has not returned. -/
  stopped : Bool := false

namespace ExtentSystem

def start (size : ExtentSize) : ExtentSystem where
  eg := initDataFiles size

/-- Callers give back only what they got. -/
def step (system : ExtentSystem) (event : ExtentEvent) : ExtentSystem :=
  if system.stopped then system
  else
    match event with
    | .alloc preassignedBlock spaceLimit =>
      match system.eg.allocExtent preassignedBlock spaceLimit with
      | .allocated eg block => { system with eg, allocated := block :: system.allocated }
      | .error eg => { system with eg }
      | .panic => { system with stopped := true }
      | .looping => { system with stopped := true }
    | .free block =>
      if block ∈ system.allocated then
        match system.eg.freeExtent block with
        | some eg => { system with eg, allocated := system.allocated.erase block }
        | none => { system with stopped := true }
      else system

section Step

variable {system : ExtentSystem} {eg : ExtentGroup} {block : Nat} (running : system.stopped = false)
include running

theorem step_allocated {preassignedBlock spaceLimit : Nat}
    (returned : system.eg.allocExtent preassignedBlock spaceLimit = .allocated eg block) :
    system.step (.alloc preassignedBlock spaceLimit) =
      { system with eg, allocated := block :: system.allocated } := by
  unfold step
  rw [running, if_neg Bool.false_ne_true]
  dsimp only
  rw [returned]

theorem step_freed (member : block ∈ system.allocated) (freed : system.eg.freeExtent block = some eg) :
    system.step (.free block) = { system with eg, allocated := system.allocated.erase block } := by
  unfold step
  rw [running, if_neg Bool.false_ne_true]
  dsimp only
  rw [if_pos member, freed]

end Step

/-- The call stays within block numbers and within the array of groups, and the extent it names lies
below the end of its group as `eg_locate_map_by_pageid` computes it. -/
def Within (system : ExtentSystem) : ExtentEvent → Prop
  | .alloc preassignedBlock _ =>
    system.eg.extentSize.Fits system.eg.mapHead.allocatedExtents ∧ (preassignedBlock = invalidBlockNumber ∨
        ∃ number < system.eg.ensureFirstGroup.mapHead.groups.length * mapGroupExtents,
          preassignedBlock = system.eg.extentSize.extentStart number ∧
            system.eg.extentSize.Locatable number ∧ system.eg.extentSize.Fits number)
  | .free block =>
    ∀ number, block = system.eg.extentSize.extentStart number → system.eg.extentSize.Locatable number

end ExtentSystem

namespace ExtentGroup

/-- The map pages of all groups, in the order of the map head. -/
def allMapPages (eg : ExtentGroup) : List MapPage :=
  eg.mapHead.groups.flatMap fun group =>
    (List.range group.pageCount).map fun page => eg.mapPages (group.firstMap + page)

def fullMapPage (page : MapPage) : Prop := ∀ bitId < mapBitCnt, page.bitmap bitId = true

end ExtentGroup

/-- What holds of an extent group and the extents handed out from it. -/
structure ExtentSystem.Sound (system : ExtentSystem) : Prop where
  disjoint : system.allocated.Pairwise fun first second =>
    first + system.eg.extentSize.blocks ≤ second ∨ second + system.eg.extentSize.blocks ≤ first
  outside : ∀ block ∈ system.allocated, mapHeadPage < block ∧ ∀ group ∈ system.eg.mapHead.groups,
      block + system.eg.extentSize.blocks ≤ group.firstMap ∨
        group.firstMap + group.pageCount + ipBlockGroupSize ≤ block
  marked : ∀ block, block ∈ system.allocated ↔
    ∃ page ∈ system.eg.allMapPages, ∃ bitId < mapBitCnt, page.bitmap bitId = true ∧
      block = uint32 (page.firstPage + bitId * system.eg.mapHead.bitUnit)
  freeBits : ∀ page ∈ system.eg.allMapPages, page.freeBits = Lib.clearCount page.bitmap mapBitCnt
  allocatedExtents : system.eg.mapHead.allocatedExtents =
    (system.eg.allMapPages.map fun page => Lib.setCount page.bitmap mapBitCnt).sum
  freeBegin : ∀ page ∈ system.eg.allMapPages, ∀ bitId < page.freeBegin, page.bitmap bitId = true
  dirtyLast : ∀ page ∈ system.eg.allMapPages, ∀ bitId, page.bitmap bitId = true → bitId ≤ page.dirtyLast
  freePage : ∀ group ∈ system.eg.mapHead.groups, group.freePage < group.pageCount ∧
    ∀ page < group.freePage, ExtentGroup.fullMapPage (system.eg.mapPages (group.firstMap + page))
  freeGroup : ∀ group ∈ system.eg.mapHead.groups.take system.eg.mapHead.freeGroup,
    ∀ page < group.pageCount, ExtentGroup.fullMapPage (system.eg.mapPages (group.firstMap + page))
  found : ∀ number < system.eg.mapHead.groups.length * mapGroupExtents, system.eg.bit number = false →
    system.eg.extentSize.extentStart number + system.eg.extentSize.blocks ≤ system.eg.totalBlocks →
    ∀ spaceLimit, ∃ later block,
      system.eg.allocExtent invalidBlockNumber spaceLimit = .allocated later block ∧
        later.totalBlocks = system.eg.totalBlocks ∧
        later.mapHead.groups.length = system.eg.mapHead.groups.length

end OpenGauss.Segment
