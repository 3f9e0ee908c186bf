import OpenGauss.Segment.ExtentMap

namespace OpenGauss.Segment

theorem uint32_of_lt {value : Nat} (small : value < 4294967296) : uint32 value = value :=
  Nat.mod_eq_of_lt small

theorem ExtentSize.Fits.lt {size : ExtentSize} {number : Nat} (fits : size.Fits number) :
    size.extentStart number + size.blocks + fileExtendStepBlocks ≤ 4294967296 := fits.2

theorem ExtentSize.Fits.start_lt {size : ExtentSize} {number : Nat} (fits : size.Fits number) :
    size.extentStart number + size.blocks < invalidBlockNumber := by
  have := fits.lt
  simp only [fileExtendStepBlocks, invalidBlockNumber] at *
  omega

/-- The end of an extent is a block number too. -/
theorem ExtentSize.Fits.stop_eq {size : ExtentSize} {number : Nat} (fits : size.Fits number) :
    uint32 (size.extentStart number + size.blocks) = size.extentStart number + size.blocks := by
  have small := fits.start_lt
  simp only [invalidBlockNumber] at small
  exact uint32_of_lt (by omega)

namespace ExtentGroup

variable {eg : ExtentGroup} {number : Nat}

/-- `later` has one more extent in use, and its hints at the given places. -/
structure Took (eg : ExtentGroup) (number mapGroup freePage : Nat) (later : ExtentGroup) : Prop where
  inv : later.MapInvariant
  bit_eq : later.bit = Function.update eg.bit number true
  extentSize : later.extentSize = eg.extentSize
  totalBlocks : later.totalBlocks = eg.totalBlocks
  freeGroup : later.mapHead.freeGroup = mapGroup
  groups : later.mapHead.groups =
    eg.mapHead.groups.modify mapGroup fun group => { group with freePage := freePage }

/-- The group of the hint, as it is afterwards. -/
theorem Took.hint {later : ExtentGroup} {mapGroup freePage : Nat}
    (took : Took eg number mapGroup freePage later) :
    ∃ group, later.mapHead.groups[mapGroup]? = some group ∧ group.freePage = freePage := by
  have below : mapGroup < later.mapHead.groups.length := by
    rcases took.inv.freeGroup with below | ⟨absent, -⟩
    · rwa [took.freeGroup] at below
    · have inside := took.inv.mapped (by rw [took.bit_eq, Function.update_self])
      simp [absent] at inside
  obtain ⟨group, found⟩ : ∃ group, later.mapHead.groups[mapGroup]? = some group :=
    ⟨_, List.getElem?_eq_getElem below⟩
  refine ⟨group, found, ?_⟩
  rw [took.groups, List.getElem?_modify] at found
  obtain ⟨old, -, rfl⟩ := Option.map_eq_some_iff.mp found
  rw [if_pos rfl]

theorem Took.of_change {newPage : MapPage} {later : ExtentGroup} {mapGroup freePage : Nat}
    (inv : eg.MapInvariant) (change : BitChange eg number true newPage later)
    (inside : number < eg.mapHead.groups.length * mapGroupExtents) (clear : eg.bit number = false)
    (group_lt : mapGroup < eg.mapHead.groups.length) (page_lt : freePage < mapGroupSize)
    (hint : eg.Hint mapGroup freePage)
    (full : ∀ page < mapGroup * mapGroupSize, eg.FullPage page)
    (allocated : later.mapHead.allocatedExtents = eg.mapHead.allocatedExtents + 1)
    (freeGroup : later.mapHead.freeGroup = mapGroup)
    (groups : later.mapHead.groups =
      eg.mapHead.groups.modify mapGroup fun group => { group with freePage := freePage }) :
    Took eg number mapGroup freePage later where
  inv := inv.setBit change inside clear group_lt page_lt hint full allocated freeGroup groups
  bit_eq := change.bit_eq
  extentSize := change.extentSize
  totalBlocks := change.totalBlocks
  freeGroup := freeGroup
  groups := groups

/-- The extent of a map page's bit, as the code computes it. -/
theorem MapInvariant.pagenum (inv : eg.MapInvariant)
    (inside : number < eg.mapHead.groups.length * mapGroupExtents) (fits : eg.extentSize.Fits number) :
    uint32 ((eg.mapPages (eg.extentSize.pageBlock (number / mapBitCnt))).firstPage +
      number % mapBitCnt * eg.mapHead.bitUnit) = eg.extentSize.extentStart number := by
  have page : number / mapBitCnt < eg.mapHead.groups.length * mapGroupSize := by
    simp only [mapBitCnt, mapGroupExtents, mapGroupSize] at *
    omega
  have start := eg.extentSize.extentStart_eq number
  have small := fits.start_lt
  simp only [invalidBlockNumber] at small
  have first : uint32 (eg.extentSize.extentStart (number / mapBitCnt * mapBitCnt)) =
      eg.extentSize.extentStart (number / mapBitCnt * mapBitCnt) := uint32_of_lt (by omega)
  rw [(inv.pages _ page).2, inv.bitUnit, first, ← start]
  exact uint32_of_lt (by omega)

/-- The attempt at an extent: taken, or the file is too short. -/
def Attempts (eg : ExtentGroup) (number mapGroup freePage : Nat) (attempt : Attempt) : Prop :=
  (eg.totalBlocks < eg.extentSize.extentStart number + eg.extentSize.blocks ∧ attempt =
      { eg, targetFileSize := eg.extentSize.extentStart number + eg.extentSize.blocks }) ∨
  (eg.extentSize.extentStart number + eg.extentSize.blocks ≤ eg.totalBlocks ∧
    ∃ later, attempt = { eg := later, result := eg.extentSize.extentStart number } ∧
      Took eg number mapGroup freePage later)

/-- What happens at a clear bit: the extent is taken, or the file is too short for it. -/
theorem allocExtentFromMapInternal_spec (inv : eg.MapInvariant)
    (inside : number < eg.mapHead.groups.length * mapGroupExtents) (clear : eg.bit number = false)
    (fits : eg.extentSize.Fits number) {mapGroup freePage : Nat}
    (group_lt : mapGroup < eg.mapHead.groups.length) (page_lt : freePage < mapGroupSize)
    (hint : eg.Hint mapGroup freePage)
    (full : ∀ page < mapGroup * mapGroupSize, eg.FullPage page) :
    ∃ attempt, eg.allocExtentFromMapInternal (eg.extentSize.pageBlock (number / mapBitCnt))
      (number % mapBitCnt) mapGroup freePage = some attempt ∧
      eg.Attempts number mapGroup freePage attempt := by
  have page : number / mapBitCnt < eg.mapHead.groups.length * mapGroupSize := by
    simp only [mapBitCnt, mapGroupExtents, mapGroupSize] at *
    omega
  simp only [allocExtentFromMapInternal, inv.pagenum inside fits, fits.stop_eq]
  by_cases short : eg.totalBlocks < eg.extentSize.extentStart number + eg.extentSize.blocks
  · rw [if_pos short]
    exact ⟨_, rfl, Or.inl ⟨short, rfl⟩⟩
  · obtain ⟨newPage, set, firstPage, bitmap, valid⟩ := MapPage.setBitmapPage_valid
      (inv.pages _ page).1 (Nat.mod_lt number (by decide : 0 < mapBitCnt)) clear
    rw [if_neg short, set]
    refine ⟨_, rfl, Or.inr ⟨Nat.not_lt.mp short, _, rfl, ?_⟩⟩
    exact Took.of_change inv ⟨rfl, rfl, rfl, rfl, valid, firstPage, bitmap⟩ inside clear group_lt page_lt
      hint full rfl rfl rfl

theorem Attempt.undecided (eg : ExtentGroup) : ¬ ({ eg } : Attempt).decided = true :=
  Bool.eq_false_iff.mp rfl

theorem Attempts.decided {attempt : Attempt} {mapGroup freePage : Nat}
    (attempts : eg.Attempts number mapGroup freePage attempt) (fits : eg.extentSize.Fits number) :
    attempt.decided = true := by
  have small := fits.start_lt
  have positive := eg.extentSize.blocks_pos
  rcases attempts with ⟨-, rfl⟩ | ⟨-, later, rfl, -⟩
  · simp only [Attempt.decided, Bool.or_eq_true, decide_eq_true_eq]
    right
    omega
  · simp only [Attempt.decided, Bool.or_eq_true, bne_iff_ne]
    left
    omega

theorem page_lt_of_group {group : MapGroup} {mapGroup page : Nat}
    (found : eg.mapHead.groups[mapGroup]? = some group)
    (inside : page < mapGroupSize) :
    mapGroup * mapGroupSize + page < eg.mapHead.groups.length * mapGroupSize := by
  obtain ⟨below, -⟩ := List.getElem?_eq_some_iff.mp found
  simp only [mapGroupSize] at *
  omega

section Search

variable (inv : eg.MapInvariant) {mapGroup page : Nat}
include inv

theorem MapInvariant.mapBlock_eq {group : MapGroup} (found : eg.mapHead.groups[mapGroup]? = some group)
    (inside : page < mapGroupSize) :
    uint32 (group.firstMap + page) = eg.extentSize.pageBlock (mapGroup * mapGroupSize + page) := by
  obtain ⟨firstMap, -, -, -, fits⟩ := inv.groups mapGroup group found
  have small := fits.start_lt
  have data := eg.extentSize.extentStart_group mapGroup
  unfold ExtentSize.dataStart at data
  have block : eg.extentSize.pageBlock (mapGroup * mapGroupSize + page) =
      eg.extentSize.groupStart mapGroup + page := by
    have group : (mapGroup * mapGroupSize + page) / mapGroupSize = mapGroup := by
      simp only [mapGroupSize] at *
      omega
    have rest : (mapGroup * mapGroupSize + page) % mapGroupSize = page := by
      simp only [mapGroupSize] at *
      omega
    rw [ExtentSize.pageBlock, group, rest]
  rw [firstMap, block]
  refine uint32_of_lt ?_
  simp only [invalidBlockNumber, mapGroupSize] at *
  omega

theorem MapInvariant.allocExtentFromMap_full
    (inside : page < eg.mapHead.groups.length * mapGroupSize) (full : eg.FullPage page)
    (mapGroup freePage : Nat) :
    eg.allocExtentFromMap (eg.extentSize.pageBlock page) mapGroup freePage = some { eg } := by
  have absent : (eg.mapPages (eg.extentSize.pageBlock page)).freeBits = 0 := by
    rw [(inv.pages page inside).1.freeBits, Lib.clearCount_eq_zero]
    intro bitId below
    have set := full (page * mapBitCnt + bitId) (by simp only [mapBitCnt] at *; omega)
    have number : (page * mapBitCnt + bitId) / mapBitCnt = page ∧
        (page * mapBitCnt + bitId) % mapBitCnt = bitId := by
      simp only [mapBitCnt] at *
      omega
    rwa [bit, number.1, number.2] at set
  rw [allocExtentFromMap, if_pos absent]

/-- In the page of the first free extent the search stops at its bit. -/
theorem MapInvariant.allocExtentFromMap_least
    (inside : number < eg.mapHead.groups.length * mapGroupExtents) (clear : eg.bit number = false)
    (least : ∀ earlier < number, eg.bit earlier = true) (mapGroup freePage : Nat) :
    eg.allocExtentFromMap (eg.extentSize.pageBlock (number / mapBitCnt)) mapGroup freePage =
      eg.allocExtentFromMapInternal (eg.extentSize.pageBlock (number / mapBitCnt))
        (number % mapBitCnt) mapGroup freePage := by
  have page : number / mapBitCnt < eg.mapHead.groups.length * mapGroupSize := by
    simp only [mapBitCnt, mapGroupExtents, mapGroupSize] at *
    omega
  have valid := (inv.pages _ page).1
  have below : number % mapBitCnt < mapBitCnt := Nat.mod_lt _ (by decide)
  have begin_le := valid.freeBegin_le
  have earlier_set : ∀ bitId < number % mapBitCnt,
      (eg.mapPages (eg.extentSize.pageBlock (number / mapBitCnt))).bitmap bitId = true := by
    intro bitId low
    have set := least (number / mapBitCnt * mapBitCnt + bitId) (by simp only [mapBitCnt] at *; omega)
    have place : (number / mapBitCnt * mapBitCnt + bitId) / mapBitCnt = number / mapBitCnt ∧
        (number / mapBitCnt * mapBitCnt + bitId) % mapBitCnt = bitId := by
      simp only [mapBitCnt] at *
      omega
    rwa [bit, place.1, place.2] at set
  have start : (eg.mapPages (eg.extentSize.pageBlock (number / mapBitCnt))).freeBegin ≤
      number % mapBitCnt := by
    by_contra late
    have := valid.freeBegin _ (Nat.not_le.mp late)
    rw [bit] at clear
    simp [this] at clear
  have curr : Lib.findClear (eg.mapPages (eg.extentSize.pageBlock (number / mapBitCnt))).bitmap
      (mapBitCnt - (eg.mapPages (eg.extentSize.pageBlock (number / mapBitCnt))).freeBegin)
      (eg.mapPages (eg.extentSize.pageBlock (number / mapBitCnt))).freeBegin = number % mapBitCnt :=
    Lib.findClear_eq start (by omega) (fun bitId _ low => earlier_set bitId low) (fun _ => clear)
  simp only [allocExtentFromMap]
  rw [if_neg (Nat.pos_iff_ne_zero.mp (valid.freeBits_pos below clear)), curr, if_neg (Nat.not_le.mpr below)]

theorem MapInvariant.tryPages_full {group : MapGroup}
    (found : eg.mapHead.groups[mapGroup]? = some group) (page count : Nat)
    (inside : page + count ≤ mapGroupSize)
    (full : ∀ offset < count, eg.FullPage (mapGroup * mapGroupSize + (page + offset))) :
    eg.tryPages mapGroup group page count = some { eg } := by
  induction count generalizing page with
  | zero => rfl
  | succ count ih =>
    have here : page < mapGroupSize := by omega
    rw [tryPages, inv.mapBlock_eq found here,
      inv.allocExtentFromMap_full (page_lt_of_group found here) (full 0 (Nat.succ_pos count)),
      Option.bind_some, if_neg (Attempt.undecided eg)]
    refine ih (page + 1) (by omega) ?_
    intro offset below
    have := full (offset + 1) (by omega)
    rwa [show page + 1 + offset = page + (offset + 1) by omega]

theorem MapInvariant.tryPages_least {group : MapGroup} (found : eg.mapHead.groups[mapGroup]? = some group)
    (inside : number < eg.mapHead.groups.length * mapGroupExtents) (clear : eg.bit number = false)
    (least : ∀ earlier < number, eg.bit earlier = true) (fits : eg.extentSize.Fits number)
    (here : number / mapGroupExtents = mapGroup) (page count : Nat)
    (before : page ≤ number / mapBitCnt % mapGroupSize) (all : page + count = mapGroupSize) :
    ∃ attempt, eg.tryPages mapGroup group page count = some attempt ∧
      eg.Attempts number mapGroup (number / mapBitCnt % mapGroupSize) attempt := by
  have target : number / mapBitCnt % mapGroupSize < mapGroupSize := Nat.mod_lt _ (by decide)
  have split : number / mapBitCnt = mapGroup * mapGroupSize + number / mapBitCnt % mapGroupSize := by
    simp only [mapBitCnt, mapGroupExtents, mapGroupSize] at *
    omega
  have full : ∀ earlier < number / mapBitCnt, eg.FullPage earlier := by
    intro earlier low other place
    exact least other (by simp only [mapBitCnt] at *; omega)
  induction count generalizing page with
  | zero => omega
  | succ count ih =>
    have below : page < mapGroupSize := by omega
    rw [tryPages, inv.mapBlock_eq found below]
    by_cases reached : page = number / mapBitCnt % mapGroupSize
    · obtain ⟨groupInside, -⟩ := List.getElem?_eq_some_iff.mp found
      obtain ⟨attempt, done, attempts⟩ := allocExtentFromMapInternal_spec inv inside clear fits
        groupInside target
        (fun earlier low => full _ (by omega))
        (fun earlier low => full _ (by omega))
      refine ⟨attempt, ?_, attempts⟩
      rw [reached, ← split, inv.allocExtentFromMap_least inside clear least, done, Option.bind_some,
        if_pos (attempts.decided fits)]
    · rw [inv.allocExtentFromMap_full (page_lt_of_group found below) (full _ (by omega)),
        Option.bind_some, if_neg (Attempt.undecided eg)]
      exact ih (page + 1) (by omega) (by omega)

/-- Groups in which everything is in use are passed over. -/
theorem MapInvariant.tryGroups_full {index : Nat} {rest : List MapGroup}
    (drop : eg.mapHead.groups.drop index = rest)
    (full : ∀ number < eg.mapHead.groups.length * mapGroupExtents, eg.bit number = true) :
    eg.tryGroups index rest = some { eg } := by
  induction rest generalizing index with
  | nil => rfl
  | cons group rest ih =>
    have found : eg.mapHead.groups[index]? = some group := by
      rw [← List.head?_drop, drop, List.head?_cons]
    obtain ⟨-, pageCount, freePage, -, -⟩ := inv.groups index group found
    have passed := inv.tryPages_full found group.freePage (group.pageCount - group.freePage) (by omega) (by
        intro offset below other place
        have := page_lt_of_group found (show group.freePage + offset < mapGroupSize by omega)
        refine full other ?_
        simp only [mapBitCnt, mapGroupSize, mapGroupExtents] at *
        omega)
    rw [tryGroups, if_pos (by omega), passed, Option.bind_some, if_neg (Attempt.undecided eg)]
    refine ih ?_
    rw [← List.drop_drop, drop, List.drop_one, List.tail_cons]

/-- The search over the groups ends at the first free extent. -/
theorem MapInvariant.tryGroups_least
    (inside : number < eg.mapHead.groups.length * mapGroupExtents) (clear : eg.bit number = false)
    (least : ∀ earlier < number, eg.bit earlier = true) (fits : eg.extentSize.Fits number)
    {index : Nat} {rest : List MapGroup} (drop : eg.mapHead.groups.drop index = rest)
    (before : index ≤ number / mapGroupExtents) :
    ∃ attempt, eg.tryGroups index rest = some attempt ∧
      eg.Attempts number (number / mapGroupExtents) (number / mapBitCnt % mapGroupSize) attempt := by
  have target : number / mapGroupExtents < eg.mapHead.groups.length := by
    simp only [mapGroupExtents] at *
    omega
  induction rest generalizing index with
  | nil =>
    rw [List.drop_eq_nil_iff] at drop
    omega
  | cons group rest ih =>
    have found : eg.mapHead.groups[index]? = some group := by
      rw [← List.head?_drop, drop, List.head?_cons]
    obtain ⟨-, pageCount, freePage, hint, -⟩ := inv.groups index group found
    rw [tryGroups, if_pos (by omega)]
    by_cases reached : index = number / mapGroupExtents
    · have start : group.freePage ≤ number / mapBitCnt % mapGroupSize := by
        by_contra late
        have := hint _ (Nat.not_le.mp late) number (by
          rw [reached]
          simp only [mapBitCnt, mapGroupSize, mapGroupExtents]
          omega)
        simp [clear] at this
      obtain ⟨attempt, done, attempts⟩ := inv.tryPages_least found inside clear least fits
        reached.symm group.freePage (group.pageCount - group.freePage) start (by omega)
      refine ⟨attempt, ?_, reached ▸ attempts⟩
      rw [done, Option.bind_some, if_pos (attempts.decided fits)]
    · have passed := inv.tryPages_full found group.freePage (group.pageCount - group.freePage) (by omega) (by
          intro offset below other place
          refine least other ?_
          simp only [mapBitCnt, mapGroupSize, mapGroupExtents] at *
          omega)
      rw [passed, Option.bind_some, if_neg (Attempt.undecided eg)]
      refine ih ?_ (by omega)
      rw [← List.drop_drop, drop, List.drop_one, List.tail_cons]

end Search

end ExtentGroup

end OpenGauss.Segment
