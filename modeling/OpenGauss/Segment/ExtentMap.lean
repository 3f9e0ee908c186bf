import OpenGauss.Segment.ExtentGroup

/-! Where extents and map pages lie in the file of an extent group; nothing is cut to 32 bits here.
-/

namespace OpenGauss.Segment

open Function (update update_of_ne update_self)

namespace ExtentSize

variable (size : ExtentSize)

def groupStart (group : Nat) : Nat :=
  mapHeadPage + 1 + group * (mapGroupSize + ipBlockGroupSize + mapGroupExtents * size.blocks)

def dataStart (group : Nat) : Nat := size.groupStart group + mapGroupSize + ipBlockGroupSize

def extentStart (number : Nat) : Nat :=
  size.dataStart (number / mapGroupExtents) + number % mapGroupExtents * size.blocks

def pageBlock (page : Nat) : Nat := size.groupStart (page / mapGroupSize) + page % mapGroupSize

/-- The extent and the step of the file it ends in have block numbers below `2 ^ 32`, and its group
has a place in the map head. -/
def Fits (number : Nat) : Prop :=
  number < maxMapGroupCnt * mapGroupExtents ∧
    size.extentStart number + size.blocks + fileExtendStepBlocks ≤ 4294967296

instance (number : Nat) : Decidable (size.Fits number) := inferInstanceAs (Decidable (_ ∧ _))

/-- The extent lies below the end of its group as `eg_locate_map_by_pageid` computes it. -/
def Locatable (number : Nat) : Prop :=
  size.extentStart number <
    uint32 (size.dataStart (number / mapGroupExtents) + mapGroupExtents * size.blocks)

instance (number : Nat) : Decidable (size.Locatable number) := inferInstanceAs (Decidable (_ < _))

def Holds (number block : Nat) : Prop :=
  size.extentStart number ≤ block ∧ block < size.extentStart number + size.blocks

instance (number block : Nat) : Decidable (size.Holds number block) := inferInstanceAs (Decidable (_ ∧ _))

theorem blocks_pos : 0 < size.blocks := by cases size <;> decide

theorem extentStart_lt {first second : Nat} (before : first < second) :
    size.extentStart first + size.blocks ≤ size.extentStart second := by
  cases size <;>
    simp only [extentStart, dataStart, groupStart, blocks, mapHeadPage, mapGroupSize, ipBlockGroupSize,
      mapGroupExtents] <;> omega

theorem extentStart_inj {first second : Nat} (same : size.extentStart first = size.extentStart second) :
    first = second := by
  have positive := size.blocks_pos
  rcases Nat.lt_trichotomy first second with before | equal | after
  · have := size.extentStart_lt before
    omega
  · exact equal
  · have := size.extentStart_lt after
    omega

theorem Holds.start (number : Nat) : size.Holds number (size.extentStart number) :=
  ⟨Nat.le_refl _, Nat.lt_add_of_pos_right size.blocks_pos⟩

theorem Holds.unique {size : ExtentSize} {first second block : Nat} (one : size.Holds first block)
    (other : size.Holds second block) : first = second := by
  unfold Holds at one other
  rcases Nat.lt_trichotomy first second with before | equal | after
  · have := size.extentStart_lt before
    omega
  · exact equal
  · have := size.extentStart_lt after
    omega

theorem extentStart_le {first second : Nat} (before : first ≤ second) :
    size.extentStart first ≤ size.extentStart second := by
  rcases Nat.eq_or_lt_of_le before with rfl | before
  · rfl
  · exact (Nat.le_add_right _ _).trans (size.extentStart_lt before)

theorem Fits.mono {size : ExtentSize} {first second : Nat} (fits : size.Fits second)
    (before : first ≤ second) : size.Fits first := by
  have := size.extentStart_le before
  unfold Fits at *
  omega

theorem Fits.zero : size.Fits 0 := by cases size <;> decide

/-- An extent is outside of the map head and of the map and inverse pointer pages of every group. -/
theorem extentStart_outside (number group : Nat) : mapHeadPage < size.extentStart number ∧
      (size.extentStart number + size.blocks ≤ size.groupStart group ∨
        size.dataStart group ≤ size.extentStart number) := by
  rcases Nat.lt_or_ge (number / mapGroupExtents) group with earlier | later
  · refine ⟨?_, Or.inl ?_⟩ <;> cases size <;>
      simp only [extentStart, dataStart, groupStart, blocks, mapHeadPage, mapGroupSize,
        ipBlockGroupSize, mapGroupExtents] at * <;> omega
  · refine ⟨?_, Or.inr ?_⟩ <;> cases size <;>
      simp only [extentStart, dataStart, groupStart, blocks, mapHeadPage, mapGroupSize,
        ipBlockGroupSize, mapGroupExtents] at * <;> omega

theorem pageBlock_inj {first second : Nat} (same : size.pageBlock first = size.pageBlock second) :
    first = second := by
  cases size <;> simp only [pageBlock, groupStart, blocks, mapHeadPage, mapGroupSize, ipBlockGroupSize,
      mapGroupExtents] at same <;> omega

/-- An extent from the place of its map page. -/
theorem extentStart_eq (number : Nat) : size.extentStart number =
      size.extentStart (number / mapBitCnt * mapBitCnt) + number % mapBitCnt * size.blocks := by
  cases size <;>
    simp only [extentStart, dataStart, groupStart, blocks, mapHeadPage, mapGroupSize, ipBlockGroupSize,
      mapGroupExtents, mapBitCnt] <;> omega

/-- The blocks between the computed bounds of a group are those of its locatable extents. -/
theorem inRange_iff (group block : Nat) : size.dataStart group ≤ block ∧
        block < uint32 (size.dataStart group + mapGroupExtents * size.blocks) ↔
      ∃ number, number / mapGroupExtents = group ∧ size.Holds number block ∧ size.Locatable number := by
  constructor
  · rintro ⟨after, before⟩
    have cut : uint32 (size.dataStart group + mapGroupExtents * size.blocks) ≤
        size.dataStart group + mapGroupExtents * size.blocks := Nat.mod_le _ _
    refine ⟨group * mapGroupExtents + (block - size.dataStart group) / size.blocks, ?_⟩
    have inside : (block - size.dataStart group) / size.blocks < mapGroupExtents := by
      rw [Nat.div_lt_iff_lt_mul size.blocks_pos]
      omega
    have quotient : (group * mapGroupExtents + (block - size.dataStart group) / size.blocks) /
        mapGroupExtents = group := by
      rw [Nat.mul_comm, Nat.mul_add_div (by decide), Nat.div_eq_of_lt inside, Nat.add_zero]
    have remainder : (group * mapGroupExtents + (block - size.dataStart group) / size.blocks) %
        mapGroupExtents = (block - size.dataStart group) / size.blocks := by
      rw [Nat.mul_comm, Nat.mul_add_mod, Nat.mod_eq_of_lt inside]
    have parts := Nat.div_add_mod' (block - size.dataStart group) size.blocks
    have short := Nat.mod_lt (block - size.dataStart group) size.blocks_pos
    refine ⟨quotient, ?_, ?_⟩
    · unfold Holds extentStart
      rw [quotient, remainder]
      omega
    · unfold Locatable extentStart
      rw [quotient, remainder]
      omega
  · rintro ⟨number, rfl, ⟨after, before⟩, locatable⟩
    unfold Locatable at locatable
    refine ⟨(Nat.le_add_right _ _).trans after, ?_⟩
    -- The end is cut by a multiple of the extent size, so no extent lies across it.
    cases size <;> simp only [extentStart, dataStart, groupStart, blocks, mapHeadPage, mapGroupSize,
        ipBlockGroupSize, mapGroupExtents, uint32] at * <;> omega

theorem dataStart_succ (group : Nat) :
    size.groupStart (group + 1) = size.dataStart group + mapGroupExtents * size.blocks := by
  cases size <;> simp only [dataStart, groupStart, blocks, mapHeadPage, mapGroupSize, ipBlockGroupSize,
      mapGroupExtents] <;> omega

theorem extentStart_group (group : Nat) :
    size.extentStart (group * mapGroupExtents) = size.dataStart group := by
  unfold extentStart
  rw [Nat.mul_div_cancel _ (by decide), Nat.mul_mod_left, Nat.zero_mul, Nat.add_zero]

theorem extentStart_page (group page : Nat) (inside : page < mapGroupSize) :
    size.extentStart ((group * mapGroupSize + page) * mapBitCnt) =
      size.dataStart group + page * (mapBitCnt * size.blocks) := by
  cases size <;>
    simp only [extentStart, dataStart, groupStart, blocks, mapHeadPage, mapGroupSize, ipBlockGroupSize,
      mapGroupExtents, mapBitCnt] at * <;> omega

end ExtentSize

/-- A map page with its counter and its two hints. -/
structure MapPage.Valid (page : MapPage) : Prop where
  freeBits : page.freeBits = Lib.clearCount page.bitmap mapBitCnt
  freeBegin_le : page.freeBegin ≤ mapBitCnt
  freeBegin : ∀ bit < page.freeBegin, page.bitmap bit = true
  dirtyLast : ∀ bit, page.bitmap bit = true → bit ≤ page.dirtyLast
  inside : ∀ bit, page.bitmap bit = true → bit < mapBitCnt

namespace MapPage

variable {page : MapPage} {bitId : Nat}

theorem Valid.freeBits_pos (valid : page.Valid) (inside : bitId < mapBitCnt)
    (clear : page.bitmap bitId = false) : 0 < page.freeBits := by
  rw [valid.freeBits, Nat.pos_iff_ne_zero]
  intro absent
  have := Lib.clearCount_eq_zero.mp absent bitId inside
  simp [clear] at this

theorem setBitmapPage_valid (valid : page.Valid) (inside : bitId < mapBitCnt)
    (clear : page.bitmap bitId = false) :
    ∃ page', page.setBitmapPage bitId = some page' ∧ page'.firstPage = page.firstPage ∧
      page'.bitmap = update page.bitmap bitId true ∧ page'.Valid := by
  rw [setBitmapPage, if_pos clear]
  refine ⟨_, rfl, rfl, rfl, ?_, ?_, ?_, ?_, ?_⟩
  · have := Lib.clearCount_set inside clear
    have := valid.freeBits
    dsimp only
    omega
  · dsimp only
    have := valid.freeBegin_le
    split <;> omega
  · dsimp only
    intro bit low
    by_cases same : bit = bitId
    · rw [same, update_self]
    · rw [update_of_ne same]
      refine valid.freeBegin bit ?_
      split at low <;> omega
  · dsimp only
    intro bit set
    by_cases same : bit = bitId
    · subst same
      split <;> omega
    · rw [update_of_ne same] at set
      have := valid.dirtyLast bit set
      split <;> omega
  · dsimp only
    intro bit set
    by_cases same : bit = bitId
    · rwa [same]
    · rw [update_of_ne same] at set
      exact valid.inside bit set

theorem unsetBitmapPage_valid (valid : page.Valid) (set : page.bitmap bitId = true) :
    ∃ page', page.unsetBitmapPage bitId = some page' ∧ page'.firstPage = page.firstPage ∧
      page'.bitmap = update page.bitmap bitId false ∧ page'.Valid := by
  have inside := valid.inside bitId set
  have remains : ∀ bit, update page.bitmap bitId false bit = true → page.bitmap bit = true := by
    intro bit still
    by_cases same : bit = bitId
    · rw [same, update_self] at still
      cases still
    · rwa [update_of_ne same] at still
  rw [unsetBitmapPage, if_pos set]
  refine ⟨_, rfl, rfl, rfl, ?_, ?_, ?_, ?_, ?_⟩
  · have := Lib.clearCount_unset inside set
    have := valid.freeBits
    dsimp only
    omega
  · dsimp only
    have := valid.freeBegin_le
    split <;> omega
  · dsimp only
    intro bit low
    have different : bit ≠ bitId := by
      rintro rfl
      split at low <;> omega
    rw [update_of_ne different]
    refine valid.freeBegin bit ?_
    split at low <;> omega
  · exact fun bit still => valid.dirtyLast bit (remains bit still)
  · exact fun bit still => valid.inside bit (remains bit still)

theorem initBitmapPageContent_valid (firstPage : Nat) : (initBitmapPageContent firstPage).Valid where
  freeBits := by
    have := Lib.setCount_add_clearCount (fun _ => false) mapBitCnt
    have absent : Lib.setCount (fun _ => false) mapBitCnt = 0 := Lib.setCount_eq_zero fun _ _ => rfl
    change mapBitCnt = Lib.clearCount (fun _ => false) mapBitCnt
    omega
  freeBegin_le := Nat.zero_le _
  freeBegin := fun bit low => absurd low (Nat.not_lt_zero bit)
  dirtyLast := by simp [initBitmapPageContent]
  inside := by simp [initBitmapPageContent]

end MapPage

namespace ExtentGroup

def bit (eg : ExtentGroup) (number : Nat) : Bool :=
  (eg.mapPages (eg.extentSize.pageBlock (number / mapBitCnt))).bitmap (number % mapBitCnt)

def FullPage (eg : ExtentGroup) (page : Nat) : Prop :=
  ∀ number, number / mapBitCnt = page → eg.bit number = true

/-- Every page before this one is full, as far as one can tell from the start of its group. -/
def Hint (eg : ExtentGroup) (group page : Nat) : Prop :=
  ∀ earlier < page, eg.FullPage (group * mapGroupSize + earlier)

structure MapInvariant (eg : ExtentGroup) : Prop where
  bitUnit : eg.mapHead.bitUnit = eg.extentSize.blocks
  file : eg.totalBlocks % fileExtendStepBlocks = 0
  file_last : eg.totalBlocks + fileExtendStepBlocks ≤ 4294967296
  groups : ∀ index group, eg.mapHead.groups[index]? = some group →
    group.firstMap = eg.extentSize.groupStart index ∧ group.pageCount = mapGroupSize ∧
      group.freePage < mapGroupSize ∧ eg.Hint index group.freePage ∧
      eg.extentSize.Fits (index * mapGroupExtents)
  pages : ∀ page < eg.mapHead.groups.length * mapGroupSize,
    (eg.mapPages (eg.extentSize.pageBlock page)).Valid ∧
      (eg.mapPages (eg.extentSize.pageBlock page)).firstPage =
        uint32 (eg.extentSize.extentStart (page * mapBitCnt))
  unmapped : ∀ number, eg.mapHead.groups.length * mapGroupExtents ≤ number → eg.bit number = false
  freeGroup : eg.mapHead.freeGroup < eg.mapHead.groups.length ∨
    eg.mapHead.groups = [] ∧ eg.mapHead.freeGroup = 0
  freeGroup_full : ∀ page < eg.mapHead.freeGroup * mapGroupSize, eg.FullPage page
  allocated : eg.mapHead.allocatedExtents = Lib.setCount eg.bit (eg.mapHead.groups.length * mapGroupExtents)

theorem initDataFiles_invariant (size : ExtentSize) : (initDataFiles size).MapInvariant where
  bitUnit := rfl
  file := Nat.mod_self _
  file_last := by simp only [initDataFiles, fileExtendStepBlocks]; omega
  groups := by simp [initDataFiles]
  pages := by simp [initDataFiles]
  unmapped := fun _ _ => rfl
  freeGroup := Or.inr ⟨rfl, rfl⟩
  freeGroup_full := by simp [initDataFiles]
  allocated := by simp [initDataFiles, Lib.setCount]

variable {eg : ExtentGroup} {number : Nat}

theorem page_of_number (number : Nat) : number / mapBitCnt * mapBitCnt + number % mapBitCnt = number :=
  Nat.div_add_mod' number mapBitCnt

theorem MapInvariant.mapped (inv : eg.MapInvariant) (set : eg.bit number = true) :
    number < eg.mapHead.groups.length * mapGroupExtents := by
  by_contra far
  simp [inv.unmapped number (Nat.not_lt.mp far)] at set

/-- The bit of an extent changes, in a map page that stays valid. -/
structure BitChange (eg : ExtentGroup) (number : Nat) (value : Bool) (newPage : MapPage)
    (later : ExtentGroup) : Prop where
  extentSize : later.extentSize = eg.extentSize
  totalBlocks : later.totalBlocks = eg.totalBlocks
  bitUnit : later.mapHead.bitUnit = eg.mapHead.bitUnit
  mapPages : later.mapPages = update eg.mapPages (eg.extentSize.pageBlock (number / mapBitCnt)) newPage
  valid : newPage.Valid
  firstPage : newPage.firstPage = (eg.mapPages (eg.extentSize.pageBlock (number / mapBitCnt))).firstPage
  bitmap : newPage.bitmap = update
    (eg.mapPages (eg.extentSize.pageBlock (number / mapBitCnt))).bitmap (number % mapBitCnt) value

section BitChange

variable {value : Bool} {newPage : MapPage} {later : ExtentGroup}

section

variable (change : BitChange eg number value newPage later)

include change

theorem BitChange.bit_eq : later.bit = update eg.bit number value := by
  funext other
  rw [bit, change.extentSize, change.mapPages]
  by_cases samePage : other / mapBitCnt = number / mapBitCnt
  · rw [samePage, update_self, change.bitmap]
    by_cases same : other = number
    · rw [same, update_self, update_self]
    · have : other % mapBitCnt ≠ number % mapBitCnt := by
        intro sameBit
        exact same (by rw [← page_of_number other, samePage, sameBit, page_of_number])
      rw [update_of_ne this, update_of_ne same, bit, samePage]
  · have block : eg.extentSize.pageBlock (other / mapBitCnt) ≠
        eg.extentSize.pageBlock (number / mapBitCnt) :=
      fun same => samePage (eg.extentSize.pageBlock_inj same)
    have same : other ≠ number := fun same => samePage (by rw [same])
    rw [update_of_ne block, update_of_ne same, bit]

theorem BitChange.pages (inv : eg.MapInvariant) : ∀ page < eg.mapHead.groups.length * mapGroupSize,
      (later.mapPages (later.extentSize.pageBlock page)).Valid ∧
      (later.mapPages (later.extentSize.pageBlock page)).firstPage =
        uint32 (later.extentSize.extentStart (page * mapBitCnt)) := by
  intro page inside
  rw [change.mapPages, change.extentSize]
  by_cases same : page = number / mapBitCnt
  · subst same
    rw [update_self, change.firstPage]
    exact ⟨change.valid, (inv.pages _ inside).2⟩
  · have : eg.extentSize.pageBlock page ≠ eg.extentSize.pageBlock (number / mapBitCnt) :=
      fun equal => same (eg.extentSize.pageBlock_inj equal)
    rw [update_of_ne this]
    exact inv.pages page inside

/-- Pages without the changed bit stay full, and so do all pages when the bit is set. -/
theorem BitChange.fullPage {page : Nat}
    (full : eg.FullPage page) (kept : page ≠ number / mapBitCnt ∨ value = true) :
    later.FullPage page := by
  intro other here
  rw [change.bit_eq]
  by_cases same : other = number
  · subst same
    rw [update_self]
    exact kept.resolve_left fun different => different here.symm
  · rw [update_of_ne same]
    exact full other here

end

/-- A clear bit is set, and the hints move to places before which everything is in use. -/
theorem MapInvariant.setBit (inv : eg.MapInvariant) (change : BitChange eg number true newPage later)
    (inside : number < eg.mapHead.groups.length * mapGroupExtents) (clear : eg.bit number = false)
    {mapGroup freePage : Nat} (group_lt : mapGroup < eg.mapHead.groups.length)
    (page_lt : freePage < mapGroupSize) (hint : eg.Hint mapGroup freePage)
    (full : ∀ page < mapGroup * mapGroupSize, eg.FullPage page)
    (allocated : later.mapHead.allocatedExtents = eg.mapHead.allocatedExtents + 1)
    (freeGroup : later.mapHead.freeGroup = mapGroup)
    (groups : later.mapHead.groups =
      eg.mapHead.groups.modify mapGroup fun group => { group with freePage := freePage }) :
    later.MapInvariant := by
  have length : later.mapHead.groups.length = eg.mapHead.groups.length := by
    rw [groups, List.length_modify]
  refine ⟨?_, ?_, ?_, ?_, ?_, ?_, ?_, ?_, ?_⟩
  · rw [change.bitUnit, change.extentSize, inv.bitUnit]
  · rw [change.totalBlocks, inv.file]
  · rw [change.totalBlocks]
    exact inv.file_last
  · intro index group found
    rw [groups, List.getElem?_modify] at found
    obtain ⟨old, there, rfl⟩ := Option.map_eq_some_iff.mp found
    obtain ⟨firstMap, pageCount, freePage_lt, oldHint, fits⟩ := inv.groups index old there
    rw [change.extentSize]
    split
    · rename_i same
      subst same
      exact ⟨firstMap, pageCount, page_lt,
        fun earlier before => change.fullPage (hint earlier before) (Or.inr rfl), fits⟩
    · exact ⟨firstMap, pageCount, freePage_lt,
        fun earlier before => change.fullPage (oldHint earlier before) (Or.inr rfl), fits⟩
  · rw [length]
    exact change.pages inv
  · intro other far
    rw [length] at far
    rw [change.bit_eq, update_of_ne (by omega)]
    exact inv.unmapped other far
  · left
    rw [length, freeGroup]
    exact group_lt
  · intro page before
    rw [freeGroup] at before
    exact change.fullPage (full page before) (Or.inr rfl)
  · rw [length, change.bit_eq, Lib.setCount_set inside clear, allocated, inv.allocated]

/-- A set bit is cleared, and the hints move back to it. -/
theorem MapInvariant.unsetBit (inv : eg.MapInvariant) (change : BitChange eg number false newPage later)
    (inside : number < eg.mapHead.groups.length * mapGroupExtents) (set : eg.bit number = true)
    (allocated : later.mapHead.allocatedExtents = eg.mapHead.allocatedExtents - 1)
    (freeGroup : later.mapHead.freeGroup =
      if number / mapGroupExtents < eg.mapHead.freeGroup then number / mapGroupExtents
      else eg.mapHead.freeGroup)
    (groups : later.mapHead.groups = eg.mapHead.groups.modify (number / mapGroupExtents) fun group =>
        { group with
          freePage :=
            if number / mapBitCnt % mapGroupSize < group.freePage then
              number / mapBitCnt % mapGroupSize
            else group.freePage }) :
    later.MapInvariant := by
  have length : later.mapHead.groups.length = eg.mapHead.groups.length := by
    rw [groups, List.length_modify]
  have page : number / mapBitCnt =
      number / mapGroupExtents * mapGroupSize + number / mapBitCnt % mapGroupSize := by
    simp only [mapBitCnt, mapGroupExtents, mapGroupSize]
    omega
  have remainder : number / mapBitCnt % mapGroupSize < mapGroupSize := Nat.mod_lt _ (by decide)
  refine ⟨?_, ?_, ?_, ?_, ?_, ?_, ?_, ?_, ?_⟩
  · rw [change.bitUnit, change.extentSize, inv.bitUnit]
  · rw [change.totalBlocks, inv.file]
  · rw [change.totalBlocks]
    exact inv.file_last
  · intro index group found
    rw [groups, List.getElem?_modify] at found
    obtain ⟨old, there, rfl⟩ := Option.map_eq_some_iff.mp found
    obtain ⟨firstMap, pageCount, freePage_lt, oldHint, fits⟩ := inv.groups index old there
    rw [change.extentSize]
    split
    · rename_i same
      subst same
      refine ⟨firstMap, pageCount, ?_, ?_, fits⟩
      · dsimp only
        split <;> omega
      · intro earlier before
        refine change.fullPage (oldHint earlier ?_) (Or.inl ?_)
        · dsimp only at before
          split at before <;> omega
        · dsimp only at before
          split at before <;> omega
    · rename_i different
      refine ⟨firstMap, pageCount, freePage_lt, ?_, fits⟩
      intro earlier before
      refine change.fullPage (oldHint earlier before) (Or.inl ?_)
      intro same
      apply different
      simp only [mapGroupSize] at *
      omega
  · rw [length]
    exact change.pages inv
  · intro other far
    rw [length] at far
    rw [change.bit_eq, update_of_ne (by omega)]
    exact inv.unmapped other far
  · rw [length, freeGroup]
    rcases inv.freeGroup with present | ⟨absent, -⟩
    · left
      split <;> omega
    · simp [absent] at inside
  · intro earlier before
    rw [freeGroup] at before
    refine change.fullPage (inv.freeGroup_full earlier ?_) (Or.inl ?_)
    · split at before
      · exact before.trans (Nat.mul_lt_mul_of_pos_right ‹_› (by decide))
      · exact before
    · simp only [mapGroupSize] at *
      split at before <;> omega
  · have := Lib.setCount_unset inside set
    rw [length, change.bit_eq, allocated, inv.allocated]
    omega

end BitChange

end ExtentGroup

end OpenGauss.Segment
