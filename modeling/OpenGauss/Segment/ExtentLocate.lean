import OpenGauss.Segment.ExtentSystem

/-! Finding extents by their blocks. A group is passed over from the block on where the code
believes it ends, and a search that fails leaves the last group and its first bit. -/

namespace OpenGauss.Segment

def SpaceMapLocation.mapLocationIsInvalid (location : SpaceMapLocation) : Prop :=
  (location.group.map MapGroup.firstMap).getD 0 = 0

instance (location : SpaceMapLocation) : Decidable location.mapLocationIsInvalid :=
  inferInstanceAs (Decidable (_ = _))

namespace ExtentGroup

variable {eg : ExtentGroup} {number block : Nat}

/-- The extents that have a bit in some map page. -/
def Mapped (eg : ExtentGroup) (number : Nat) : Prop :=
  number < eg.mapHead.groups.length * mapGroupExtents

/-- The first extent of the last group. -/
def lastFirst (eg : ExtentGroup) : Nat := (eg.mapHead.groups.length - 1) * mapGroupExtents

/-- The location is that of the extent's bit. -/
def LocatedAt (eg : ExtentGroup) (number : Nat) (location : SpaceMapLocation) : Prop :=
  ∃ group, eg.mapHead.groups[number / mapGroupExtents]? = some group ∧ location =
      { group := some group
        mapId := number / mapBitCnt % mapGroupSize
        bitId := number % mapBitCnt
        mapGroup := number / mapGroupExtents }

/-- The search inverts the placement of extents at this block. -/
structure Inverts (eg : ExtentGroup) (block : Nat) : Prop where
  first : ∀ number, eg.Mapped number → block = eg.extentSize.extentStart number →
    eg.LocatedAt number (eg.locateMapByPageid block)
  outside : (∀ number, eg.Mapped number → ¬ eg.extentSize.Holds number block) →
    (eg.locateMapByPageid block).mapLocationIsInvalid
  marks : ∀ attempt, eg.allocPreassignedBlock block = some attempt →
    attempt.eg.bit = eg.bit ∨ ∃ number, eg.Mapped number ∧ eg.extentSize.Holds number block ∧
      eg.bit number = false ∧ attempt.eg.bit = Function.update eg.bit number true

/-- There is no group, or the block is in a mapped extent below the computed end of its group. Behind
that end the search still ends well at the extent it points to by accident, and at other blocks than
the first of an extent when the accidental extent cannot be taken. -/
def Reached (eg : ExtentGroup) (block : Nat) : Prop :=
  eg.mapHead.groups = [] ∨ ∃ number, eg.Mapped number ∧ eg.extentSize.Holds number block ∧
    (eg.extentSize.Locatable number ∨ number = eg.lastFirst ∨ block ≠ eg.extentSize.extentStart number ∧
        (eg.bit eg.lastFirst = true ∨
          eg.totalBlocks < eg.extentSize.extentStart eg.lastFirst + eg.extentSize.blocks))

theorem lastFirst_place (eg : ExtentGroup) : eg.lastFirst / mapGroupExtents = eg.mapHead.groups.length - 1 ∧
      eg.lastFirst / mapBitCnt % mapGroupSize = 0 ∧ eg.lastFirst % mapBitCnt = 0 := by
  unfold lastFirst
  simp only [mapGroupExtents, mapBitCnt, mapGroupSize]
  omega

section Last

variable (some_group : eg.mapHead.groups ≠ [])
include some_group

theorem lastFirst_mapped : eg.Mapped eg.lastFirst := by
  have := List.length_pos_of_ne_nil some_group
  unfold Mapped lastFirst
  simp only [mapGroupExtents]
  omega

/-- A failed search points to the first extent of the last group. -/
theorem MapInvariant.locate_lastFirst (inv : eg.MapInvariant)
    (unlocatable : ∀ number, eg.Mapped number → eg.extentSize.Holds number block →
      ¬ eg.extentSize.Locatable number) :
    eg.LocatedAt eg.lastFirst (eg.locateMapByPageid block) := by
  obtain ⟨group_eq, map_eq, bit_eq⟩ := lastFirst_place eg
  have final := List.getLast?_eq_getLast_of_ne_nil some_group
  refine ⟨eg.mapHead.groups.getLast some_group, ?_, ?_⟩
  · rw [group_eq, ← List.getLast?_eq_getElem?, final]
  · rw [inv.locate_missed unlocatable final, group_eq, map_eq, bit_eq]

theorem MapInvariant.lastFirst_fits (inv : eg.MapInvariant) : eg.extentSize.Fits eg.lastFirst := by
  have pos := List.length_pos_of_ne_nil some_group
  obtain ⟨-, -, -, -, fits⟩ := inv.groups (eg.mapHead.groups.length - 1) _
    (List.getElem?_eq_getElem (by omega))
  exact fits

end Last

theorem LocatedAt.unique {location : SpaceMapLocation} {other : Nat}
    (one : eg.LocatedAt number location) (two : eg.LocatedAt other location) : number = other := by
  obtain ⟨_, -, rfl⟩ := one
  obtain ⟨_, -, same⟩ := two
  obtain ⟨-, mapId, bitId, mapGroup⟩ := (SpaceMapLocation.mk.injEq ..).mp same
  simp only [mapBitCnt, mapGroupSize, mapGroupExtents] at mapId bitId mapGroup
  omega

section Located

variable (inv : eg.MapInvariant)
include inv

/-- An extent that is found, and one that a failed search points to, are both at a valid place. -/
theorem MapInvariant.located_place {location : SpaceMapLocation} (located : eg.LocatedAt number location) :
    ∃ group, location.group = some group ∧ group.firstMap ≠ 0 ∧
      uint32 (location.mapId + group.firstMap) = eg.extentSize.pageBlock (number / mapBitCnt) ∧
      location.bitId = number % mapBitCnt := by
  obtain ⟨group, found, rfl⟩ := located
  obtain ⟨firstMap, place⟩ := inv.mapPlace found
  exact ⟨group, rfl, firstMap, place, rfl⟩

theorem MapInvariant.located_valid {location : SpaceMapLocation}
    (located : eg.LocatedAt number location) : ¬ location.mapLocationIsInvalid := by
  obtain ⟨group, found, firstMap, -⟩ := inv.located_place located
  rw [SpaceMapLocation.mapLocationIsInvalid, found]
  exact firstMap

section

variable (mapped : eg.Mapped number)

include mapped

theorem MapInvariant.allocExtentFromMapInternal_bit
    (clear : eg.bit number = false) {mapGroup freePage : Nat} {attempt : Attempt}
    (done : eg.allocExtentFromMapInternal (eg.extentSize.pageBlock (number / mapBitCnt))
      (number % mapBitCnt) mapGroup freePage = some attempt) :
    attempt.eg.bit = eg.bit ∨ attempt.eg.bit = Function.update eg.bit number true := by
  have page : number / mapBitCnt < eg.mapHead.groups.length * mapGroupSize := by
    unfold Mapped at mapped
    simp only [mapBitCnt, mapGroupExtents, mapGroupSize] at *
    omega
  obtain ⟨newPage, set, firstPage, bitmap, valid⟩ := MapPage.setBitmapPage_valid
    (inv.pages _ page).1 (Nat.mod_lt number (by decide : 0 < mapBitCnt)) clear
  simp only [allocExtentFromMapInternal] at done
  split at done
  · obtain rfl := Option.some.inj done
    exact Or.inl rfl
  · rw [set, Option.map_some] at done
    obtain rfl := Option.some.inj done
    right
    exact BitChange.bit_eq ⟨rfl, rfl, rfl, rfl, valid, firstPage, bitmap⟩

section

variable (located : eg.LocatedAt number (eg.locateMapByPageid block))
include located

/-- A preassigned block marks the extent that the search points to, or nothing. -/
theorem MapInvariant.allocPreassignedBlock_bit {attempt : Attempt}
    (done : eg.allocPreassignedBlock block = some attempt) :
    attempt.eg.bit = eg.bit ∨
      eg.bit number = false ∧ attempt.eg.bit = Function.update eg.bit number true := by
  obtain ⟨group, found, firstMap, place, bitId⟩ := inv.located_place located
  simp only [allocPreassignedBlock, found, if_neg firstMap, place, bitId] at done
  cases used : eg.bit number with
  | true =>
    rw [bit] at used
    simp [used] at done
  | false =>
    have clear := used
    rw [bit] at clear
    rw [if_neg (by simp [clear])] at done
    split at done
    · obtain rfl := Option.some.inj done
      exact Or.inl rfl
    · split at done
      · cases done
      · split at done
        · obtain ⟨inner, taken, rfl⟩ := Option.map_eq_some_iff.mp done
          rcases inv.allocExtentFromMapInternal_bit mapped used taken with same | marked
          · exact Or.inl same
          · exact Or.inr ⟨rfl, marked⟩
        · cases done

/-- The extent that a failed search points to is taken when it is free and in the file. -/
theorem MapInvariant.allocPreassignedBlock_takes (clear : eg.bit number = false)
    (fits : eg.extentSize.Fits number)
    (enough : eg.extentSize.extentStart number + eg.extentSize.blocks ≤ eg.totalBlocks) :
    ∃ attempt, eg.allocPreassignedBlock block = some attempt ∧
      attempt.eg.bit = Function.update eg.bit number true := by
  obtain ⟨group, found, firstMap, place, bitId⟩ := inv.located_place located
  have freeGroup : eg.mapHead.freeGroup < eg.mapHead.groups.length := by
    rcases inv.freeGroup with below | ⟨absent, -⟩
    · exact below
    · simp [Mapped, absent] at mapped
  have free := List.getElem?_eq_getElem freeGroup
  obtain ⟨-, pageCount, freePage, hint, -⟩ := inv.groups _ _ free
  obtain ⟨attempt, done, attempts⟩ := allocExtentFromMapInternal_spec inv mapped clear fits freeGroup
    freePage hint inv.freeGroup_full
  rcases attempts with ⟨short, -⟩ | ⟨-, later, rfl, took⟩
  · exact absurd short (Nat.not_lt.mpr enough)
  rw [bit] at clear
  simp only [allocPreassignedBlock, found, if_neg firstMap, place, bitId, inv.pagenum mapped fits,
    fits.stop_eq]
  rw [if_neg (by simp [clear]), if_neg (Nat.not_lt.mpr enough), free]
  dsimp only
  rw [if_pos (by omega), done]
  exact ⟨_, rfl, took.bit_eq⟩

theorem MapInvariant.allocPreassignedBlock_short (fits : eg.extentSize.Fits number)
    (short : eg.totalBlocks < eg.extentSize.extentStart number + eg.extentSize.blocks)
    {attempt : Attempt} (done : eg.allocPreassignedBlock block = some attempt) :
    attempt.eg.bit = eg.bit := by
  obtain ⟨group, found, firstMap, place, bitId⟩ := inv.located_place located
  simp only [allocPreassignedBlock, found, if_neg firstMap, place, bitId, inv.pagenum mapped fits,
    fits.stop_eq] at done
  split at done
  · cases done
  · obtain rfl := Option.some.inj done
    rfl

end

/-- A search that ends at the extent holding the block inverts the placement there. -/
theorem MapInvariant.inverts_of_located (holds : eg.extentSize.Holds number block)
    (located : eg.LocatedAt number (eg.locateMapByPageid block)) : eg.Inverts block where
  first := by
    rintro other - start
    have same : other = number := (ExtentSize.Holds.start _ other).unique (start ▸ holds)
    rwa [same]
  outside := fun absent => absurd holds (absent number mapped)
  marks := by
    intro attempt done
    rcases inv.allocPreassignedBlock_bit mapped located done with same | ⟨clear, marked⟩
    · exact Or.inl same
    · exact Or.inr ⟨number, mapped, holds, clear, marked⟩

end

end Located

theorem update_bit_inj {other : Nat} (clear : eg.bit number = false)
    (same : Function.update eg.bit number true = Function.update eg.bit other true) :
    number = other := by
  by_contra different
  have at_number := congrFun same number
  rw [Function.update_self, Function.update_of_ne different, clear] at at_number
  cases at_number

theorem MapInvariant.reached_inverts (inv : eg.MapInvariant) (reached : eg.Reached block) :
    eg.Inverts block := by
  rcases reached with absent | ⟨number, mapped, holds, place⟩
  · refine ⟨?_, ?_, ?_⟩
    · intro number mapped
      simp [Mapped, absent] at mapped
    · intro _
      rw [locateMapByPageid, absent]
      rfl
    · intro attempt done
      rw [allocPreassignedBlock, locateMapByPageid, absent] at done
      obtain rfl := Option.some.inj done
      exact Or.inl rfl
  · have some_group : eg.mapHead.groups ≠ [] := by
      intro absent
      simp [Mapped, absent] at mapped
    by_cases locatable : eg.extentSize.Locatable number
    · obtain ⟨group, found, location, -⟩ := inv.locate mapped holds locatable
      exact inv.inverts_of_located mapped holds ⟨group, found, location⟩
    have located : eg.LocatedAt eg.lastFirst (eg.locateMapByPageid block) :=
      inv.locate_lastFirst some_group fun other _ held => by rwa [held.unique holds]
    rcases place with below | last | ⟨inner, untaken⟩
    · exact absurd below locatable
    · rw [← last] at located
      exact inv.inverts_of_located mapped holds located
    · refine ⟨?_, fun absent => absurd holds (absent number mapped), ?_⟩
      · rintro other - rfl
        rw [holds.unique (.start _ other)] at inner
        exact absurd rfl inner
      · intro attempt done
        left
        rcases inv.allocPreassignedBlock_bit (lastFirst_mapped some_group) located done with
          same | ⟨clear, -⟩
        · exact same
        · rcases untaken with used | short
          · rw [used] at clear
            cases clear
          · exact inv.allocPreassignedBlock_short (lastFirst_mapped some_group) located
              (inv.lastFirst_fits some_group) short done

theorem MapInvariant.inverts_reached (inv : eg.MapInvariant) (inverts : eg.Inverts block) :
    eg.Reached block := by
  by_cases some_group : eg.mapHead.groups = []
  · exact Or.inl some_group
  right
  by_cases found : ∃ number, eg.Mapped number ∧ eg.extentSize.Holds number block
  · obtain ⟨number, mapped, holds⟩ := found
    refine ⟨number, mapped, holds, ?_⟩
    by_cases locatable : eg.extentSize.Locatable number
    · exact Or.inl locatable
    by_cases last : number = eg.lastFirst
    · exact Or.inr (Or.inl last)
    have located : eg.LocatedAt eg.lastFirst (eg.locateMapByPageid block) :=
      inv.locate_lastFirst some_group fun other _ held => by rwa [held.unique holds]
    refine Or.inr (Or.inr ⟨?_, ?_⟩)
    · intro start
      exact last ((inverts.first number mapped start).unique located)
    · by_contra taken
      rw [not_or, Bool.not_eq_true, Nat.not_lt] at taken
      obtain ⟨clear, enough⟩ := taken
      have lastMapped := lastFirst_mapped some_group
      obtain ⟨attempt, done, marked⟩ := inv.allocPreassignedBlock_takes lastMapped located clear
        (inv.lastFirst_fits some_group) enough
      rcases inverts.marks attempt done with same | ⟨other, -, held, -, other_marked⟩
      · have := congrFun (marked.symm.trans same) eg.lastFirst
        rw [Function.update_self, clear] at this
        cases this
      · have := update_bit_inj clear (marked.symm.trans other_marked)
        exact last ((holds.unique held).trans this.symm)
  · have outside := inverts.outside fun number mapped holds => found ⟨number, mapped, holds⟩
    refine absurd outside (inv.located_valid (inv.locate_lastFirst some_group ?_))
    exact fun number mapped holds => absurd ⟨number, mapped, holds⟩ found

/-- The search inverts the placement exactly at the blocks it reaches. -/
theorem locateMapByPageid_inverts (eg : ExtentGroup) (inv : eg.MapInvariant) (block : Nat) :
    eg.Inverts block ↔ eg.Reached block :=
  ⟨inv.inverts_reached, inv.reached_inverts⟩

/-- A new file with its first group. -/
def firstGroup (size : ExtentSize) : ExtentGroup := (initDataFiles size).addMapGroup (mapHeadPage + 1)

variable (size : ExtentSize)

theorem firstGroup_invariant : (firstGroup size).MapInvariant := by
  have start : (initDataFiles size).extentSize.groupStart (initDataFiles size).mapHead.groups.length =
      mapHeadPage + 1 := by
    rw [initDataFiles, ExtentSize.groupStart, List.length_nil, Nat.zero_mul]
  have fits : (initDataFiles size).extentSize.Fits
      ((initDataFiles size).mapHead.groups.length * mapGroupExtents) := by
    rw [initDataFiles, List.length_nil, Nat.zero_mul]
    exact ExtentSize.Fits.zero size
  rw [firstGroup, ← start]
  exact (initDataFiles_invariant size).addMapGroup fits

theorem firstGroup_mapped (number : Nat) :
    (firstGroup size).Mapped number ↔ number < mapGroupExtents := by
  rw [Mapped, firstGroup, (addMapGroup_frame _ _).2.2, List.length_append, List.length_singleton,
    initDataFiles, List.length_nil, Nat.zero_add, Nat.one_mul]

theorem firstGroup_size : (firstGroup size).extentSize = size :=
  (addMapGroup_frame _ _).1

theorem locateMapByPageid_inverts_first : (firstGroup .size1).Inverts 4157 := by
  refine (locateMapByPageid_inverts _ (firstGroup_invariant _) 4157).mpr (Or.inr ⟨0, ?_, ?_, Or.inl ?_⟩)
  · rw [firstGroup_mapped]
    decide
  · rw [firstGroup_size]
    decide
  · rw [firstGroup_size]
    decide

/-- The first extent of a group that does not exist yet is looked for: the search ends at the first
extent of the file. -/
theorem locateMapByPageid_not_inverts :
    (firstGroup .size1).MapInvariant ∧ ¬ (firstGroup .size1).Inverts 4184183 := by
  refine ⟨firstGroup_invariant _, fun inverts => ?_⟩
  have unmapped : ∀ number, (firstGroup .size1).Mapped number →
      ¬ (firstGroup .size1).extentSize.Holds number 4184183 := by
    intro number mapped holds
    rw [firstGroup_mapped] at mapped
    rw [firstGroup_size] at holds
    have := holds.unique (ExtentSize.Holds.start .size1 4175872)
    simp only [mapGroupExtents] at mapped
    omega
  have some_group : (firstGroup .size1).mapHead.groups ≠ [] := by
    intro absent
    have first := (firstGroup_mapped .size1 0).mpr (by decide)
    simp [Mapped, absent] at first
  exact (firstGroup_invariant _).located_valid
    ((firstGroup_invariant _).locate_lastFirst some_group fun number mapped holds _ =>
      unmapped number mapped holds)
    (inverts.outside unmapped)

end ExtentGroup

end OpenGauss.Segment
