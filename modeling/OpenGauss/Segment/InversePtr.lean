import OpenGauss.Segment.ExtentLocate

namespace OpenGauss.Segment

def extentsPerIpblock : Nat := 1021

structure IpBlockLocation where
  ipblock : Nat
  offset : Nat
  deriving DecidableEq, Repr

def ExtentSize.groupTotalBlocks (size : ExtentSize) : Nat :=
  uint32 (mapGroupSize + ipBlockGroupSize + uint32 (mapGroupExtents * size.blocks))

/-- `GetIpBlock`. No extent size fails its `SegmentCheck`. -/
def getIpBlock (extent : Nat) (extentSize : ExtentSize) : IpBlockLocation :=
  -- Subtractions wrap as well.
  let extent := uint32 (extent + (4294967296 - (mapHeadPage + 1)))
  let groupId := extent / extentSize.groupTotalBlocks
  let groupIpStart :=
    uint32 (mapHeadPage + 1 + groupId * extentSize.groupTotalBlocks + mapGroupSize)
  let groupOffset := uint32 (extent % extentSize.groupTotalBlocks +
    (4294967296 - (mapGroupSize + ipBlockGroupSize)))
  let extentId := groupOffset / extentSize.blocks
  { ipblock := uint32 (groupIpStart + extentId / extentsPerIpblock)
    offset := extentId % extentsPerIpblock }

namespace ExtentSize

variable {size : ExtentSize} {number : Nat}

def Addressable (size : ExtentSize) (number : Nat) : Prop :=
  size.extentStart number + size.blocks ≤ 4294967296

/-- The extent begins before the blocks of a group run out, as 32 bits count them. -/
def IpReached (size : ExtentSize) (number : Nat) : Prop :=
  number % mapGroupExtents * size.blocks < uint32 (mapGroupExtents * size.blocks)

instance (number : Nat) : Decidable (size.Addressable number) := inferInstanceAs (Decidable (_ ≤ _))

instance (number : Nat) : Decidable (size.IpReached number) := inferInstanceAs (Decidable (_ < _))

/-- The computed number of blocks places the extent in its group. -/
theorem groupTotalBlocks_spec (addressable : size.Addressable number) (reached : size.IpReached number) :
    size.extentStart number = mapHeadPage + 1 + (number / mapGroupExtents * size.groupTotalBlocks +
          (mapGroupSize + ipBlockGroupSize + number % mapGroupExtents * size.blocks)) ∧
      size.groupStart (number / mapGroupExtents) =
        mapHeadPage + 1 + number / mapGroupExtents * size.groupTotalBlocks ∧
      mapGroupSize + ipBlockGroupSize + number % mapGroupExtents * size.blocks <
        size.groupTotalBlocks := by
  unfold Addressable at addressable
  unfold IpReached at reached
  unfold extentStart at *
  generalize number / mapGroupExtents = group at *
  generalize number % mapGroupExtents = extent at *
  cases size <;> simp only [groupTotalBlocks, dataStart, groupStart, blocks, mapHeadPage, mapGroupSize,
      ipBlockGroupSize, mapGroupExtents, uint32, true_and, Nat.reduceAdd, Nat.reduceMul,
      Nat.reduceMod] at * <;>
    omega

theorem getIpBlock_eq (addressable : size.Addressable number) (reached : size.IpReached number) :
    getIpBlock (size.extentStart number) size =
      { ipblock := size.groupStart (number / mapGroupExtents) + mapGroupSize +
          number % mapGroupExtents / extentsPerIpblock
        offset := number % mapGroupExtents % extentsPerIpblock } := by
  have remainder : number % mapGroupExtents < mapGroupExtents := Nat.mod_lt _ (by decide)
  have page : number % mapGroupExtents / extentsPerIpblock < ipBlockGroupSize := by
    simp only [mapGroupExtents, extentsPerIpblock, ipBlockGroupSize] at *
    omega
  obtain ⟨start, group_eq, inside⟩ := groupTotalBlocks_spec addressable reached
  unfold Addressable at addressable
  have positive := size.blocks_pos
  have extent : uint32 (size.extentStart number + (4294967296 - (mapHeadPage + 1))) =
      number / mapGroupExtents * size.groupTotalBlocks +
        (mapGroupSize + ipBlockGroupSize + number % mapGroupExtents * size.blocks) := by
    simp only [uint32, mapHeadPage] at *
    omega
  have groupId : (number / mapGroupExtents * size.groupTotalBlocks +
      (mapGroupSize + ipBlockGroupSize + number % mapGroupExtents * size.blocks)) /
        size.groupTotalBlocks = number / mapGroupExtents := by
    rw [Nat.mul_comm, Nat.mul_add_div (Nat.zero_lt_of_lt inside), Nat.div_eq_of_lt inside, Nat.add_zero]
  have groupIpStart : uint32 (mapHeadPage + 1 +
      number / mapGroupExtents * size.groupTotalBlocks + mapGroupSize) =
        size.groupStart (number / mapGroupExtents) + mapGroupSize := by
    rw [← group_eq, uint32_of_lt]
    simp only [mapGroupSize, ipBlockGroupSize] at *
    omega
  have groupOffset : uint32 ((number / mapGroupExtents * size.groupTotalBlocks +
      (mapGroupSize + ipBlockGroupSize + number % mapGroupExtents * size.blocks)) %
        size.groupTotalBlocks + (4294967296 - (mapGroupSize + ipBlockGroupSize))) =
          number % mapGroupExtents * size.blocks := by
    rw [Nat.mul_comm, Nat.mul_add_mod, Nat.mod_eq_of_lt inside]
    simp only [uint32, mapGroupSize, ipBlockGroupSize] at *
    omega
  have ipblock : uint32 (size.groupStart (number / mapGroupExtents) + mapGroupSize +
      number % mapGroupExtents / extentsPerIpblock) =
        size.groupStart (number / mapGroupExtents) + mapGroupSize +
          number % mapGroupExtents / extentsPerIpblock := by
    rw [uint32_of_lt]
    simp only [mapGroupSize, ipBlockGroupSize] at *
    omega
  simp only [getIpBlock, extent, groupId, groupIpStart, groupOffset, Nat.mul_div_cancel _ positive, ipblock]

/-- The pages of inverse pointers of a group are apart from the map pages and extents of all groups. -/
theorem ipPage_apart {group page : Nat} (after : size.groupStart group + mapGroupSize ≤ page)
    (before : page < size.dataStart group) (other : Nat) :
    (page < size.groupStart other ∨ size.groupStart other + mapGroupSize ≤ page) ∧
      ∀ extent < mapGroupExtents, page < size.dataStart other + extent * size.blocks ∨
        size.dataStart other + extent * size.blocks + size.blocks ≤ page := by
  constructor
  · cases size <;> simp only [dataStart, groupStart, blocks, mapHeadPage, mapGroupSize, ipBlockGroupSize,
        mapGroupExtents] at * <;> omega
  · intro extent inside
    have place : size.extentStart (other * mapGroupExtents + extent) =
        size.dataStart other + extent * size.blocks := by
      rw [extentStart, Nat.mul_comm, Nat.mul_add_div (by decide), Nat.div_eq_of_lt inside,
        Nat.mul_add_mod, Nat.mod_eq_of_lt inside, Nat.add_zero]
    obtain ⟨-, early | late⟩ := size.extentStart_outside (other * mapGroupExtents + extent) group
    · right
      omega
    · left
      omega

/-- Behind the computed end the page comes out behind the pages of inverse pointers. -/
theorem getIpBlock_missed (addressable : size.Addressable number) (missed : ¬ size.IpReached number) :
    size = .size8192 ∧ number / mapGroupExtents = 0 ∧
      size.dataStart 0 ≤ (getIpBlock (size.extentStart number) size).ipblock := by
  have remainder : number % mapGroupExtents < mapGroupExtents := Nat.mod_lt _ (by decide)
  unfold Addressable at addressable
  unfold IpReached at missed
  unfold extentStart at *
  generalize number / mapGroupExtents = group at *
  generalize number % mapGroupExtents = extent at *
  cases size with
  | size8192 =>
    have early : group = 0 := by
      simp only [dataStart, groupStart, blocks, mapHeadPage, mapGroupSize, ipBlockGroupSize,
        mapGroupExtents] at addressable
      omega
    subst early
    have total : ExtentSize.size8192.groupTotalBlocks = 4143976506 := by decide
    refine ⟨rfl, rfl, ?_⟩
    simp only [getIpBlock, total, dataStart, groupStart, blocks, mapHeadPage, mapGroupSize,
      ipBlockGroupSize, mapGroupExtents, extentsPerIpblock, uint32, Nat.reduceAdd, Nat.reduceMul,
      Nat.reduceMod, Nat.reduceSub, Nat.zero_mul] at *
    have behind : (4157 + extent * 8192 + 4294967293) % 4294967296 / 4143976506 = 1 := by omega
    rw [behind]
    generalize place : (_ % 4294967296 / 8192 / 1021) = page
    have small : page ≤ 513 := by omega
    clear place
    omega
  | _ =>
    refine absurd ?_ missed
    simp only [blocks, mapGroupExtents, uint32] at *
    omega

theorem getIpBlock_ne (addressable : size.Addressable number) (reached : size.IpReached number)
    {other : Nat} (other_addressable : size.Addressable other) (different : other ≠ number) :
    getIpBlock (size.extentStart other) size ≠ getIpBlock (size.extentStart number) size := by
  intro same
  have here := getIpBlock_eq addressable reached
  have remainder : number % mapGroupExtents < mapGroupExtents := Nat.mod_lt _ (by decide)
  have other_remainder : other % mapGroupExtents < mapGroupExtents := Nat.mod_lt _ (by decide)
  have page : number % mapGroupExtents / extentsPerIpblock < ipBlockGroupSize := by
    simp only [mapGroupExtents, extentsPerIpblock, ipBlockGroupSize] at *
    omega
  by_cases other_reached : size.IpReached other
  · rw [getIpBlock_eq other_addressable other_reached, here, IpBlockLocation.mk.injEq] at same
    obtain ⟨ipblock, offset⟩ := same
    apply different
    cases size <;>
      simp only [groupStart, blocks, mapHeadPage, mapGroupSize, ipBlockGroupSize, mapGroupExtents,
        extentsPerIpblock] at * <;> omega
  · obtain ⟨large, -, behind⟩ := getIpBlock_missed other_addressable other_reached
    rw [same, here] at behind
    unfold Addressable at addressable
    have first : number / mapGroupExtents = 0 := by
      subst large
      simp only [extentStart, dataStart, groupStart, blocks, mapHeadPage, mapGroupSize,
        ipBlockGroupSize, mapGroupExtents] at *
      omega
    rw [first] at behind
    simp only [dataStart, ipBlockGroupSize] at *
    omega

end ExtentSize

namespace ExtentGroup

variable {eg : ExtentGroup}

/-- Where the groups of the map head start, and where `eg_next_group_start` puts the next one when it
has a place. -/
def groupStarts (eg : ExtentGroup) : List Nat :=
  eg.mapHead.groups.map MapGroup.firstMap ++
    if eg.extentSize.Fits (eg.mapHead.groups.length * mapGroupExtents) then eg.nextGroupStart.toList
    else []

/-- The inverse pointer of an extent lies in the pages that its group has for them, apart from map
pages, extents and other inverse pointers. -/
structure IpSound (eg : ExtentGroup) (number : Nat) (location : IpBlockLocation) : Prop where
  offset : location.offset < extentsPerIpblock
  inside : ∃ group, eg.mapHead.groups[number / mapGroupExtents]? = some group ∧
    group.firstMap + group.pageCount ≤ location.ipblock ∧
      location.ipblock < group.firstMap + group.pageCount + ipBlockGroupSize
  apart : ∀ start ∈ eg.groupStarts, (location.ipblock < start ∨ start + mapGroupSize ≤ location.ipblock) ∧
      ∀ extent < mapGroupExtents,
        let block := start + mapGroupSize + ipBlockGroupSize + extent * eg.extentSize.blocks
        location.ipblock < block ∨ block + eg.extentSize.blocks ≤ location.ipblock
  distinct : ∀ other, eg.Mapped other → eg.extentSize.Addressable other → other ≠ number →
    getIpBlock (eg.extentSize.extentStart other) eg.extentSize ≠ location

theorem MapInvariant.groupStarts_eq (inv : eg.MapInvariant) {start : Nat}
    (member : start ∈ eg.groupStarts) : ∃ group, start = eg.extentSize.groupStart group := by
  rw [groupStarts, List.mem_append] at member
  rcases member with here | next
  · obtain ⟨group, there, rfl⟩ := List.mem_map.mp here
    obtain ⟨index, found⟩ := List.getElem?_of_mem there
    exact ⟨index, (inv.groups index group found).1⟩
  · split at next
    · rename_i fits
      by_cases some_group : eg.mapHead.groups = []
      · simp [nextGroupStart, some_group] at next
      · rw [inv.nextGroupStart_eq some_group fits, Option.toList_some, List.mem_singleton] at next
        exact ⟨_, next⟩
    · cases next

/-- `GetIpBlock` places the inverse pointer of an extent well exactly when it counts its group's blocks
up to the extent. -/
theorem getIpBlock_sound (eg : ExtentGroup) (inv : eg.MapInvariant) (number : Nat)
    (mapped : eg.Mapped number) (addressable : eg.extentSize.Addressable number) :
    eg.IpSound number (getIpBlock (eg.extentSize.extentStart number) eg.extentSize) ↔
      eg.extentSize.IpReached number := by
  have below : number / mapGroupExtents < eg.mapHead.groups.length := by
    unfold Mapped at mapped
    simp only [mapGroupExtents] at *
    omega
  have found := List.getElem?_eq_getElem below
  obtain ⟨firstMap, pageCount, -⟩ := inv.groups _ _ found
  constructor
  · intro sound
    by_contra missed
    obtain ⟨-, first, behind⟩ := ExtentSize.getIpBlock_missed addressable missed
    obtain ⟨group, found', -, before⟩ := sound.inside
    obtain rfl := Option.some.inj (found.symm.trans found')
    rw [firstMap, pageCount, first] at before
    simp only [ExtentSize.dataStart] at behind
    omega
  · intro reached
    have here := ExtentSize.getIpBlock_eq addressable reached
    have remainder : number % mapGroupExtents < mapGroupExtents := Nat.mod_lt _ (by decide)
    have page : number % mapGroupExtents / extentsPerIpblock < ipBlockGroupSize := by
      simp only [mapGroupExtents, extentsPerIpblock, ipBlockGroupSize] at *
      omega
    refine ⟨?_, ⟨_, found, ?_, ?_⟩, ?_, ?_⟩
    · rw [here]
      exact Nat.mod_lt _ (by decide)
    · rw [here, firstMap, pageCount]
      exact Nat.le_add_right _ _
    · rw [here, firstMap, pageCount]
      exact Nat.add_lt_add_left page _
    · intro start member
      obtain ⟨group, rfl⟩ := inv.groupStarts_eq member
      rw [here]
      exact ExtentSize.ipPage_apart (Nat.le_add_right _ _) (Nat.add_lt_add_left page _) group
    · intro other _ other_addressable different
      exact ExtentSize.getIpBlock_ne addressable reached other_addressable different

theorem getIpBlock_sound_first : (firstGroup .size8).IpSound 1021 (getIpBlock 12325 .size8) := by
  have size := firstGroup_size .size8
  have mapped := (firstGroup_mapped .size8 1021).mpr (by decide)
  have sound := (getIpBlock_sound (firstGroup .size8) (firstGroup_invariant .size8) 1021 mapped
    (by rw [size]; decide)).mpr (by rw [size]; decide)
  rw [size] at sound
  exact sound

/-- The inverse pointer of this extent comes out in a page of another extent. -/
theorem getIpBlock_not_sound : (firstGroup .size8192).MapInvariant ∧
    (firstGroup .size8192).Mapped 505856 ∧ ExtentSize.size8192.Addressable 505856 ∧
    ¬ (firstGroup .size8192).IpSound 505856
      (getIpBlock (ExtentSize.size8192.extentStart 505856) .size8192) := by
  refine ⟨firstGroup_invariant _, (firstGroup_mapped _ _).mpr (by decide), by decide, ?_⟩
  intro sound
  obtain ⟨group, found, -, before⟩ := sound.inside
  obtain ⟨firstMap, pageCount, -⟩ := (firstGroup_invariant .size8192).groups _ _ found
  rw [firstMap, pageCount, firstGroup_size] at before
  revert before
  decide

end ExtentGroup

end OpenGauss.Segment
