import OpenGauss.Segment.ExtentSearch

namespace OpenGauss.Segment

theorem uint32_add_uint32 (first second : Nat) : uint32 (uint32 first + second) = uint32 (first + second) := by
  simp [uint32]

namespace ExtentGroup

variable {eg : ExtentGroup}

theorem initBitmapPages_frame (eg : ExtentGroup) (pageno dataStart count : Nat) :
    (eg.initBitmapPages pageno dataStart count).extentSize = eg.extentSize ∧
      (eg.initBitmapPages pageno dataStart count).totalBlocks = eg.totalBlocks ∧
      (eg.initBitmapPages pageno dataStart count).mapHead = eg.mapHead := by
  induction count generalizing eg pageno dataStart with
  | zero => exact ⟨rfl, rfl, rfl⟩
  | succ count ih => exact ih _ _ _

theorem initBitmapPage_mapPages (eg : ExtentGroup) (pageno firstPage : Nat) :
    (eg.initBitmapPage pageno firstPage).mapPages =
      Function.update eg.mapPages pageno (initBitmapPageContent firstPage) := rfl

theorem initBitmapPage_extentSize (eg : ExtentGroup) (pageno firstPage : Nat) :
    (eg.initBitmapPage pageno firstPage).extentSize = eg.extentSize := rfl

theorem initBitmapPages_mapPages (eg : ExtentGroup) {pageno count : Nat} (dataStart : Nat)
    (small : pageno + count < 4294967296) (block : Nat) :
    (eg.initBitmapPages pageno (uint32 dataStart) count).mapPages block =
      if pageno ≤ block ∧ block < pageno + count then
        initBitmapPageContent (uint32 (dataStart + (block - pageno) * (mapBitCnt * eg.extentSize.blocks)))
      else eg.mapPages block := by
  induction count generalizing eg pageno dataStart with
  | zero => rw [initBitmapPages, if_neg (by omega)]
  | succ count ih =>
    rw [initBitmapPages, uint32_of_lt (show pageno + 1 < 4294967296 by omega), uint32_add_uint32,
      ih _ _ (by omega)]
    by_cases here : block = pageno
    · subst here
      rw [if_neg (by omega), if_pos (by omega), initBitmapPage_mapPages, Function.update_self,
        Nat.sub_self, Nat.zero_mul, Nat.add_zero]
    · by_cases later : pageno + 1 ≤ block ∧ block < pageno + 1 + count
      · have next : block - pageno = block - (pageno + 1) + 1 := by omega
        rw [if_pos later, if_pos (by omega), next, Nat.add_mul, Nat.one_mul,
          initBitmapPage_extentSize, Nat.add_right_comm, ← Nat.add_assoc]
      · rw [if_neg later, if_neg (by omega), initBitmapPage_mapPages, Function.update_of_ne here]

theorem registerMapGroup_frame (eg : ExtentGroup) (pageno : Nat) :
    (eg.registerMapGroup pageno).extentSize = eg.extentSize ∧
      (eg.registerMapGroup pageno).totalBlocks = eg.totalBlocks ∧
      (eg.registerMapGroup pageno).mapPages = eg.mapPages ∧
      (eg.registerMapGroup pageno).mapHead =
        { eg.mapHead with groups := eg.mapHead.groups ++ [⟨pageno, 0, mapGroupSize⟩] } :=
  ⟨rfl, rfl, rfl, rfl⟩

theorem addMapGroup_frame (eg : ExtentGroup) (pageno : Nat) :
    (eg.addMapGroup pageno).extentSize = eg.extentSize ∧
      (eg.addMapGroup pageno).totalBlocks = eg.totalBlocks ∧
      (eg.addMapGroup pageno).mapHead =
        { eg.mapHead with groups := eg.mapHead.groups ++ [⟨pageno, 0, mapGroupSize⟩] } := by
  obtain ⟨size, totalBlocks, head⟩ := initBitmapPages_frame eg pageno
    (uint32 (pageno + mapGroupSize + ipBlockGroupSize)) mapGroupSize
  rw [addMapGroup]
  refine ⟨(registerMapGroup_frame _ _).1.trans size, (registerMapGroup_frame _ _).2.1.trans totalBlocks, ?_⟩
  rw [(registerMapGroup_frame _ _).2.2.2, head]

section AddMapGroup

variable (fits : eg.extentSize.Fits (eg.mapHead.groups.length * mapGroupExtents))
include fits

theorem addMapGroup_mapPages (page : Nat) :
    (eg.addMapGroup (eg.extentSize.groupStart eg.mapHead.groups.length)).mapPages
        (eg.extentSize.pageBlock page) =
      if page / mapGroupSize = eg.mapHead.groups.length then
        initBitmapPageContent (uint32 (eg.extentSize.extentStart (page * mapBitCnt)))
      else eg.mapPages (eg.extentSize.pageBlock page) := by
  have data := eg.extentSize.extentStart_group eg.mapHead.groups.length
  have small := fits.start_lt
  rw [data] at small
  have positive := eg.extentSize.blocks_pos
  unfold ExtentSize.dataStart at small
  rw [ExtentGroup.addMapGroup, (registerMapGroup_frame _ _).2.2.1,
    initBitmapPages_mapPages _ _
    (by simp only [invalidBlockNumber, ipBlockGroupSize] at small; omega)]
  by_cases here : page / mapGroupSize = eg.mapHead.groups.length
  · have block : eg.extentSize.pageBlock page =
        eg.extentSize.groupStart eg.mapHead.groups.length + page % mapGroupSize := by
      rw [ExtentSize.pageBlock, here]
    have below : page % mapGroupSize < mapGroupSize := Nat.mod_lt _ (by decide)
    have place : page = eg.mapHead.groups.length * mapGroupSize + page % mapGroupSize := by
      rw [← here]
      exact (Nat.div_add_mod' page mapGroupSize).symm
    rw [if_pos here, if_pos (by omega), block, Nat.add_sub_cancel_left]
    conv_rhs => rw [place]
    rw [eg.extentSize.extentStart_page _ _ below, ExtentSize.dataStart]
  · rw [if_neg here, if_neg]
    rintro ⟨after, before⟩
    apply here
    have steps := eg.extentSize.dataStart_succ
    have below : page % mapGroupSize < mapGroupSize := Nat.mod_lt _ (by decide)
    cases size : eg.extentSize <;>
      simp only [size, ExtentSize.pageBlock, ExtentSize.groupStart, ExtentSize.blocks, mapHeadPage,
        mapGroupSize, ipBlockGroupSize, mapGroupExtents] at * <;> omega

theorem MapInvariant.addMapGroup_bit (inv : eg.MapInvariant) :
    (eg.addMapGroup (eg.extentSize.groupStart eg.mapHead.groups.length)).bit = eg.bit := by
  funext number
  rw [bit, (addMapGroup_frame _ _).1, addMapGroup_mapPages fits]
  split
  · rename_i here
    rw [inv.unmapped number (by simp only [mapBitCnt, mapGroupSize, mapGroupExtents] at *; omega)]
    rfl
  · rw [bit]

theorem MapInvariant.addMapGroup (inv : eg.MapInvariant) :
    (eg.addMapGroup (eg.extentSize.groupStart eg.mapHead.groups.length)).MapInvariant := by
  obtain ⟨size, totalBlocks, head⟩ :=
    addMapGroup_frame eg (eg.extentSize.groupStart eg.mapHead.groups.length)
  have bits := inv.addMapGroup_bit fits
  have pages := addMapGroup_mapPages fits
  generalize eg.addMapGroup (eg.extentSize.groupStart eg.mapHead.groups.length) = later at *
  have length : later.mapHead.groups.length = eg.mapHead.groups.length + 1 := by simp [head]
  have freeGroup : later.mapHead.freeGroup = eg.mapHead.freeGroup := by rw [head]
  have full : ∀ page, eg.FullPage page → later.FullPage page := by
    intro page old number here
    rw [bits]
    exact old number here
  refine ⟨?_, ?_, ?_, ?_, ?_, ?_, ?_, ?_, ?_⟩
  · rw [size, head, ← inv.bitUnit]
  · rw [totalBlocks, inv.file]
  · rw [totalBlocks]
    exact inv.file_last
  · intro index group found
    simp only [head] at found
    rw [size]
    rcases Nat.lt_or_ge index eg.mapHead.groups.length with old | new
    · rw [List.getElem?_append_left old] at found
      obtain ⟨firstMap, pageCount, freePage, hint, fits'⟩ := inv.groups index group found
      exact ⟨firstMap, pageCount, freePage, fun earlier before => full _ (hint earlier before), fits'⟩
    · rw [List.getElem?_append_right new] at found
      obtain ⟨last, rfl⟩ : index - eg.mapHead.groups.length = 0 ∧
          ⟨eg.extentSize.groupStart eg.mapHead.groups.length, 0, mapGroupSize⟩ = group := by
        rcases Nat.eq_zero_or_pos (index - eg.mapHead.groups.length) with zero | more
        · rw [zero] at found
          exact ⟨zero, by simpa using found⟩
        · rw [List.getElem?_eq_none (by rw [List.length_singleton]; omega)] at found
          cases found
      have here : index = eg.mapHead.groups.length := by omega
      subst here
      exact ⟨rfl, rfl, Nat.succ_pos 63, fun earlier before => absurd before (Nat.not_lt_zero earlier), fits⟩
  · intro page inside
    rw [size, pages]
    split
    · exact ⟨MapPage.initBitmapPageContent_valid _, rfl⟩
    · rename_i elsewhere
      refine inv.pages page ?_
      rw [length] at inside
      simp only [mapGroupSize] at *
      omega
  · intro number far
    rw [bits]
    rw [length] at far
    exact inv.unmapped number ((Nat.mul_le_mul_right _ (Nat.le_succ _)).trans far)
  · left
    rw [length, freeGroup]
    rcases inv.freeGroup with present | ⟨-, zero⟩
    · omega
    · omega
  · intro page before
    rw [freeGroup] at before
    exact full page (inv.freeGroup_full page before)
  · rw [length, bits, Nat.add_mul, Nat.one_mul, Lib.setCount_add,
      Lib.setCount_eq_zero (fun bit _ => inv.unmapped _ (Nat.le_add_right _ _)), Nat.add_zero,
      ← inv.allocated, head]

end AddMapGroup

theorem MapInvariant.setTotalBlocks (inv : eg.MapInvariant) {totalBlocks : Nat}
    (file : totalBlocks % fileExtendStepBlocks = 0) (last : totalBlocks + fileExtendStepBlocks ≤ 4294967296) :
    MapInvariant { eg with totalBlocks } where
  bitUnit := inv.bitUnit
  file := file
  file_last := last
  groups := inv.groups
  pages := inv.pages
  unmapped := inv.unmapped
  freeGroup := inv.freeGroup
  freeGroup_full := inv.freeGroup_full
  allocated := inv.allocated

/-- `df_extend` makes the file as long as asked for, unless the space is full. -/
theorem MapInvariant.extendDf_spec (inv : eg.MapInvariant) {target : Nat} (spaceLimit : Nat)
    (small : target + fileExtendStepBlocks ≤ 4294967296) :
    (eg.extendDf target spaceLimit = none ∧ spaceLimit < 4294967296) ∨
      ∃ totalBlocks, eg.extendDf target spaceLimit = some { eg with totalBlocks } ∧
        target ≤ totalBlocks ∧ MapInvariant { eg with totalBlocks } := by
  have file := inv.file
  have last := inv.file_last
  have aligned : uint32 ((target + fileExtendStepBlocks - 1) / fileExtendStepBlocks * fileExtendStepBlocks) =
      (target + fileExtendStepBlocks - 1) / fileExtendStepBlocks * fileExtendStepBlocks := by
    refine uint32_of_lt ?_
    simp only [fileExtendStepBlocks] at *
    omega
  simp only [extendDf, aligned]
  split
  · split
    · left
      refine ⟨rfl, ?_⟩
      simp only [fileExtendStepBlocks] at *
      omega
    · right
      refine ⟨_, rfl, ?_, inv.setTotalBlocks ?_ ?_⟩
      · simp only [fileExtendStepBlocks] at *
        omega
      · simp only [fileExtendStepBlocks] at *
        omega
      · simp only [fileExtendStepBlocks] at *
        omega
  · right
    refine ⟨eg.totalBlocks, rfl, ?_, inv⟩
    simp only [fileExtendStepBlocks] at *
    omega

variable {eg : ExtentGroup} {number : Nat}

/-- How a call of `eg_alloc_extent` may end: the file cannot grow, or the extent is taken from the
group, after the file or the map may have grown. -/
inductive Outcome (eg : ExtentGroup) (spaceLimit number mapGroup freePage : Nat) : AllocResult → Prop
  | error {later : ExtentGroup} (inv : later.MapInvariant) (bits : later.bit = eg.bit)
      (size : later.extentSize = eg.extentSize) (full : spaceLimit < 4294967296) :
      Outcome eg spaceLimit number mapGroup freePage (.error later)
  | allocated {grown later : ExtentGroup} (bits : grown.bit = eg.bit)
      (size : grown.extentSize = eg.extentSize) (took : Took grown number mapGroup freePage later) :
      Outcome eg spaceLimit number mapGroup freePage (.allocated later (eg.extentSize.extentStart number))

theorem Outcome.of_grown {grown : ExtentGroup} {spaceLimit mapGroup freePage : Nat}
    {result : AllocResult} (outcome : Outcome grown spaceLimit number mapGroup freePage result)
    (bits : grown.bit = eg.bit) (size : grown.extentSize = eg.extentSize) :
    Outcome eg spaceLimit number mapGroup freePage result := by
  cases outcome with
  | error inv bits' size' full => exact .error inv (bits'.trans bits) (size'.trans size) full
  | allocated bits' size' took =>
    rw [size]
    exact .allocated (bits'.trans bits) (size'.trans size) took

theorem ensureFirstGroup_of_some (filled : eg.mapHead.groups ≠ []) : eg.ensureFirstGroup = eg :=
  if_neg filled

theorem allocLoop_ensure (preassignedBlock spaceLimit fuel : Nat)
    (filled : eg.ensureFirstGroup.mapHead.groups ≠ []) :
    eg.allocLoop preassignedBlock spaceLimit (fuel + 1) =
      eg.ensureFirstGroup.allocLoop preassignedBlock spaceLimit (fuel + 1) := by
  rw [allocLoop, allocLoop, ensureFirstGroup_of_some filled]

section

variable (inv : eg.MapInvariant)
include inv

/-- The loop after an attempt at an extent: it ends, or extends the file and tries again. -/
theorem allocLoop_attempt {attempt : Attempt} {preassignedBlock mapGroup freePage : Nat}
    (filled : eg.mapHead.groups ≠ []) (fits : eg.extentSize.Fits number)
    (tried : eg.tryAllocExtent preassignedBlock = Option.some attempt)
    (attempts : eg.Attempts number mapGroup freePage attempt) (spaceLimit fuel : Nat) :
    (eg.extentSize.extentStart number + eg.extentSize.blocks ≤ eg.totalBlocks ∧
      ∃ later, eg.allocLoop preassignedBlock spaceLimit (fuel + 1) =
          .allocated later (eg.extentSize.extentStart number) ∧
        Took eg number mapGroup freePage later) ∨
    (eg.totalBlocks < eg.extentSize.extentStart number + eg.extentSize.blocks ∧
      ((eg.allocLoop preassignedBlock spaceLimit (fuel + 1) = .error eg ∧ spaceLimit < 4294967296) ∨
        ∃ totalBlocks, eg.extentSize.extentStart number + eg.extentSize.blocks ≤ totalBlocks ∧
          MapInvariant { eg with totalBlocks } ∧
          eg.allocLoop preassignedBlock spaceLimit (fuel + 1) =
            ({ eg with totalBlocks } : ExtentGroup).allocLoop preassignedBlock spaceLimit fuel)) := by
  have small := fits.start_lt
  have positive := eg.extentSize.blocks_pos
  rw [allocLoop, ensureFirstGroup_of_some filled, tried]
  rcases attempts with ⟨short, rfl⟩ | ⟨enough, later, rfl, took⟩
  · right
    refine ⟨short, ?_⟩
    dsimp only
    rw [if_neg (by simp), if_neg (by omega), if_pos (by omega)]
    rcases inv.extendDf_spec spaceLimit fits.lt with
      ⟨refused, full⟩ | ⟨totalBlocks, extended, enough, inv'⟩
    · left
      exact ⟨by rw [refused], full⟩
    · right
      exact ⟨totalBlocks, enough, inv', by rw [extended]⟩
  · left
    refine ⟨enough, later, ?_, took⟩
    dsimp only
    rw [if_pos (by omega)]

theorem MapInvariant.freeGroup_le (clear : eg.bit number = false) :
    eg.mapHead.freeGroup ≤ number / mapGroupExtents := by
  by_contra late
  have := inv.freeGroup_full (number / mapBitCnt)
    (by simp only [mapBitCnt, mapGroupExtents, mapGroupSize] at *; omega) number rfl
  simp [clear] at this

/-- With a free extent in the map the search ends at the first one. -/
theorem MapInvariant.tryAllocExtent_least
    (inside : number < eg.mapHead.groups.length * mapGroupExtents) (clear : eg.bit number = false)
    (least : ∀ earlier < number, eg.bit earlier = true) (fits : eg.extentSize.Fits number) :
    ∃ attempt, eg.tryAllocExtent invalidBlockNumber = some attempt ∧
      eg.Attempts number (number / mapGroupExtents) (number / mapBitCnt % mapGroupSize) attempt := by
  have before := inv.freeGroup_le clear
  have freeGroup : eg.mapHead.freeGroup < eg.mapHead.groups.length := by
    simp only [mapGroupExtents] at *
    omega
  obtain ⟨attempt, done, attempts⟩ := inv.tryGroups_least inside clear least fits rfl before
  refine ⟨attempt, ?_, attempts⟩
  rw [tryAllocExtent, if_pos freeGroup, if_neg (by simp), done, Option.bind_some,
    if_pos (attempts.decided fits)]

theorem MapInvariant.nextGroupStart_eq (filled : eg.mapHead.groups ≠ [])
    (fits : eg.extentSize.Fits (eg.mapHead.groups.length * mapGroupExtents)) :
    eg.nextGroupStart = Option.some (eg.extentSize.groupStart eg.mapHead.groups.length) := by
  obtain ⟨group, last⟩ := Option.isSome_iff_exists.mp (List.getLast?_isSome.mpr filled)
  have found : eg.mapHead.groups[eg.mapHead.groups.length - 1]? = Option.some group := by
    rw [← List.getLast?_eq_getElem?, last]
  obtain ⟨firstMap, pageCount, -, -, -⟩ := inv.groups _ group found
  have positive := List.length_pos_iff.mpr filled
  have next := eg.extentSize.dataStart_succ (eg.mapHead.groups.length - 1)
  rw [Nat.sub_add_cancel positive, ExtentSize.dataStart] at next
  have small := fits.start_lt
  rw [eg.extentSize.extentStart_group, ExtentSize.dataStart] at small
  rw [nextGroupStart, last, Option.map_some, firstMap, pageCount, inv.bitUnit, Nat.add_comm,
    uint32_add_uint32, Nat.add_comm, ← next, uint32_of_lt]
  simp only [invalidBlockNumber] at small
  omega

/-- With everything in use the search asks for a group, or for a file that has room for its head. -/
theorem MapInvariant.tryAllocExtent_full (filled : eg.mapHead.groups ≠ [])
    (full : ∀ number < eg.mapHead.groups.length * mapGroupExtents, eg.bit number = true)
    (fits : eg.extentSize.Fits (eg.mapHead.groups.length * mapGroupExtents)) :
    eg.tryAllocExtent invalidBlockNumber = Option.some
        { eg
          targetFileSize :=
            if eg.totalBlocks < eg.extentSize.dataStart eg.mapHead.groups.length then
              eg.extentSize.dataStart eg.mapHead.groups.length
            else 0 } := by
  have freeGroup : eg.mapHead.freeGroup < eg.mapHead.groups.length := by
    rcases inv.freeGroup with below | ⟨absent, -⟩
    · exact below
    · exact absurd absent filled
  have small := fits.start_lt
  rw [eg.extentSize.extentStart_group, ExtentSize.dataStart] at small
  have data : uint32 (eg.extentSize.groupStart eg.mapHead.groups.length + mapGroupSize +
      ipBlockGroupSize) = eg.extentSize.dataStart eg.mapHead.groups.length := by
    rw [ExtentSize.dataStart, uint32_of_lt]
    simp only [invalidBlockNumber] at small
    omega
  rw [tryAllocExtent, if_pos freeGroup, if_neg (by simp), inv.tryGroups_full rfl full,
    Option.bind_some, if_neg (Attempt.undecided eg)]
  dsimp only
  rw [inv.nextGroupStart_eq filled fits, Option.map_some, data]
  split <;> rfl

/-- Two iterations are enough when the map has a free extent. -/
theorem MapInvariant.allocLoop_least (inside : number < eg.mapHead.groups.length * mapGroupExtents)
    (clear : eg.bit number = false)
    (least : ∀ earlier < number, eg.bit earlier = true) (fits : eg.extentSize.Fits number)
    (spaceLimit fuel : Nat) :
    Outcome eg spaceLimit number (number / mapGroupExtents) (number / mapBitCnt % mapGroupSize)
      (eg.allocLoop invalidBlockNumber spaceLimit (fuel + 2)) := by
  have filled : eg.mapHead.groups ≠ [] := by
    intro absent
    simp [absent] at inside
  obtain ⟨attempt, tried, attempts⟩ := inv.tryAllocExtent_least inside clear least fits
  rcases allocLoop_attempt inv filled fits tried attempts spaceLimit (fuel + 1) with
    ⟨-, later, done, took⟩ | ⟨-, ⟨refused, full⟩ | ⟨totalBlocks, enough, inv', again⟩⟩
  · rw [done]
    exact .allocated rfl rfl took
  · rw [refused]
    exact .error inv rfl rfl full
  · rw [again]
    obtain ⟨attempt', tried', attempts'⟩ := inv'.tryAllocExtent_least inside clear least fits
    rcases allocLoop_attempt inv' filled fits tried' attempts' spaceLimit fuel with
      ⟨-, later, done, took⟩ | ⟨short, -⟩
    · rw [done]
      exact Outcome.of_grown (.allocated rfl rfl took) rfl rfl
    · exact absurd short (Nat.not_lt.mpr enough)

end

section Full

variable (inv : eg.MapInvariant) (filled : eg.mapHead.groups ≠ [])
  (full : ∀ number < eg.mapHead.groups.length * mapGroupExtents, eg.bit number = true)
  (fits : eg.extentSize.Fits (eg.mapHead.groups.length * mapGroupExtents))
include inv filled full fits

theorem MapInvariant.allocLoop_addGroup
    (enough : eg.extentSize.dataStart eg.mapHead.groups.length ≤ eg.totalBlocks)
    (spaceLimit fuel : Nat) :
    Outcome eg spaceLimit (eg.mapHead.groups.length * mapGroupExtents)
      (eg.mapHead.groups.length * mapGroupExtents / mapGroupExtents)
      (eg.mapHead.groups.length * mapGroupExtents / mapBitCnt % mapGroupSize)
      (eg.allocLoop invalidBlockNumber spaceLimit (fuel + 3)) := by
  rw [allocLoop, ensureFirstGroup_of_some filled, inv.tryAllocExtent_full filled full fits,
    if_neg (Nat.not_lt.mpr enough)]
  dsimp only
  rw [if_neg (by simp), if_neg (by decide), if_neg (Nat.lt_irrefl 0), inv.nextGroupStart_eq filled fits]
  have added := inv.addMapGroup fits
  have bits := inv.addMapGroup_bit fits
  obtain ⟨size, -, head⟩ := addMapGroup_frame eg (eg.extentSize.groupStart eg.mapHead.groups.length)
  have length : (eg.addMapGroup (eg.extentSize.groupStart eg.mapHead.groups.length)).mapHead.groups.length =
      eg.mapHead.groups.length + 1 := by simp [head]
  dsimp only
  generalize eg.addMapGroup (eg.extentSize.groupStart eg.mapHead.groups.length) = grown at *
  refine Outcome.of_grown (added.allocLoop_least ?_ ?_ ?_ ?_ spaceLimit fuel) bits size
  · rw [length, Nat.add_mul, Nat.one_mul]
    exact Nat.lt_add_of_pos_right (by decide)
  · rw [bits]
    exact inv.unmapped _ le_rfl
  · rw [bits]
    exact full
  · rw [size]
    exact fits

/-- Four iterations are enough when everything is in use. -/
theorem MapInvariant.allocLoop_full (spaceLimit fuel : Nat) :
    Outcome eg spaceLimit (eg.mapHead.groups.length * mapGroupExtents)
      (eg.mapHead.groups.length * mapGroupExtents / mapGroupExtents)
      (eg.mapHead.groups.length * mapGroupExtents / mapBitCnt % mapGroupSize)
      (eg.allocLoop invalidBlockNumber spaceLimit (fuel + 4)) := by
  rcases Nat.lt_or_ge eg.totalBlocks (eg.extentSize.dataStart eg.mapHead.groups.length) with
    short | enough
  · have small := fits.lt
    rw [eg.extentSize.extentStart_group] at small
    rw [allocLoop, ensureFirstGroup_of_some filled, inv.tryAllocExtent_full filled full fits, if_pos short]
    dsimp only
    rw [if_neg (by simp), if_neg (by simp only [invalidBlockNumber, fileExtendStepBlocks] at *; omega),
      if_pos (by omega)]
    rcases inv.extendDf_spec spaceLimit
        (show eg.extentSize.dataStart eg.mapHead.groups.length + fileExtendStepBlocks ≤ 4294967296 by
          omega) with ⟨refused, limit⟩ | ⟨totalBlocks, extended, enough, inv'⟩
    · rw [refused]
      exact .error inv rfl rfl limit
    · rw [extended]
      exact Outcome.of_grown (inv'.allocLoop_addGroup filled full fits enough spaceLimit fuel) rfl rfl
  · exact inv.allocLoop_addGroup filled full fits enough spaceLimit (fuel + 1)

end Full

/-- Creating the first group changes no bit and no counter. -/
theorem MapInvariant.ensureFirstGroup (inv : eg.MapInvariant) :
    eg.ensureFirstGroup.MapInvariant ∧ eg.ensureFirstGroup.mapHead.groups ≠ [] ∧
      eg.ensureFirstGroup.bit = eg.bit ∧ eg.ensureFirstGroup.extentSize = eg.extentSize ∧
      eg.ensureFirstGroup.totalBlocks = eg.totalBlocks ∧
      eg.ensureFirstGroup.mapHead.allocatedExtents = eg.mapHead.allocatedExtents := by
  by_cases empty : eg.mapHead.groups = []
  · have length : eg.mapHead.groups.length = 0 := by rw [empty, List.length_nil]
    have first : eg.extentSize.groupStart eg.mapHead.groups.length = mapHeadPage + 1 := by
      rw [length, ExtentSize.groupStart, Nat.zero_mul]
    have fits : eg.extentSize.Fits (eg.mapHead.groups.length * mapGroupExtents) := by
      rw [length, Nat.zero_mul]
      exact ExtentSize.Fits.zero _
    have added := inv.addMapGroup fits
    have bits := inv.addMapGroup_bit fits
    obtain ⟨size, totalBlocks, head⟩ := addMapGroup_frame eg (mapHeadPage + 1)
    rw [first] at added bits
    rw [ExtentGroup.ensureFirstGroup, if_pos empty]
    refine ⟨added, ?_, bits, size, totalBlocks, ?_⟩
    · simp [head]
    · rw [head]
  · rw [ensureFirstGroup_of_some empty]
    exact ⟨inv, empty, rfl, rfl, rfl, rfl⟩

/-- `eg_alloc_extent` returns, with the first free extent or an error. -/
theorem MapInvariant.allocExtent (inv : eg.MapInvariant)
    (fits : eg.extentSize.Fits eg.mapHead.allocatedExtents) (spaceLimit : Nat) :
    ∃ number, eg.bit number = false ∧ (∀ earlier < number, eg.bit earlier = true) ∧
      number ≤ eg.mapHead.allocatedExtents ∧
      Outcome eg spaceLimit number (number / mapGroupExtents) (number / mapBitCnt % mapGroupSize)
        (eg.allocExtent invalidBlockNumber spaceLimit) := by
  obtain ⟨inv', present, bits, size, -, allocated⟩ := inv.ensureFirstGroup
  rw [ExtentGroup.allocExtent, allocLoop_ensure _ _ _ present]
  rw [← size, ← allocated] at fits
  rw [← allocated, ← bits]
  by_cases free : ∃ number < eg.ensureFirstGroup.mapHead.groups.length * mapGroupExtents,
      eg.ensureFirstGroup.bit number = false
  · obtain ⟨number, inside, clear, least⟩ := Lib.exists_least_clear free
    have counted : number ≤ eg.ensureFirstGroup.mapHead.allocatedExtents := by
      rw [inv'.allocated]
      exact Lib.le_setCount inside.le least
    exact ⟨number, clear, least, counted,
      Outcome.of_grown (inv'.allocLoop_least inside clear least (fits.mono counted) spaceLimit 2) bits size⟩
  · have full : ∀ number < eg.ensureFirstGroup.mapHead.groups.length * mapGroupExtents,
        eg.ensureFirstGroup.bit number = true := by
      intro number inside
      by_contra unset
      exact free ⟨number, inside, by simpa using unset⟩
    have counted : eg.ensureFirstGroup.mapHead.allocatedExtents =
        eg.ensureFirstGroup.mapHead.groups.length * mapGroupExtents := by
      rw [inv'.allocated, Lib.setCount_full full]
    rw [counted] at fits
    exact ⟨_, inv'.unmapped _ le_rfl, full, counted.ge,
      Outcome.of_grown (inv'.allocLoop_full present full fits spaceLimit 0) bits size⟩

end ExtentGroup

end OpenGauss.Segment
