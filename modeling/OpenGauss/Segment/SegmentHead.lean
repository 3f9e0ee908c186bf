import OpenGauss.Lib.Run
import OpenGauss.Segment.ExtentGroup

/-! The block map of a segment: extents of growing size in the segment head and in level 0 pages.
An operation that uses an index outside of its array is `none`. -/

namespace OpenGauss.Segment

def headerLevel0Slots : Nat := 1255

def headerLevel1Slots : Nat := 256

def level0PageSlots : Nat := 2000

/-- `SPC_INVRSPTR_SPECIAL_DATA_MASK` keeps 18 bits. -/
def specialData (data : Nat) : Nat := data % 262144

/-- The extents of each size end at the ids 16, 143 and 255 (`ExtentBoundary`), and at the logical blocks
128, 16384 and 131072 (`ExtentTotalPages`). -/
def extentSizeByCount (count : Nat) : ExtentSize :=
  if count < 16 then .size8
  else if count < 143 then .size128
  else if count < 255 then .size1024
  else .size8192

def extentIdToLogicBlockNum (extentId : Nat) : Nat :=
  if extentId < 16 then uint32 (extentId * 8)
  else if extentId < 143 then uint32 ((extentId - 16) * 128 + 128)
  else if extentId < 255 then uint32 ((extentId - 143) * 1024 + 16384)
  else uint32 ((extentId - 255) * 8192 + 131072)

structure ExtentOffset where
  extentSize : ExtentSize
  extentId : Nat
  offset : Nat
  deriving DecidableEq, Repr

def segLogicPageIdToExtentId (logicId : Nat) : ExtentOffset :=
  if logicId < 128 then ⟨.size8, logicId / 8, logicId % 8⟩
  else if logicId < 16384 then ⟨.size128, 16 + (logicId - 128) / 128, (logicId - 128) % 128⟩
  else if logicId < 131072 then
    ⟨.size1024, 143 + (logicId - 16384) / 1024, (logicId - 16384) % 1024⟩
  else
    ⟨.size8192, 255 + (logicId - 131072) / 8192, (logicId - 131072) % 8192⟩

def extentIdToLevel1Slot (extentId : Nat) : Nat := (extentId - headerLevel0Slots) / level0PageSlots

def extentIdToLevel0PageOffset (extentId : Nat) : Nat :=
  (extentId - headerLevel0Slots) % level0PageSlots

def requireNewLevel0Page (newExtentId : Nat) : Bool :=
  if newExtentId < headerLevel0Slots then false
  else (newExtentId - headerLevel0Slots) % level0PageSlots == 0

/-- What `seg_extend_segment`, `free_last_extent` and `move_data_extent` use of a `SegmentHead`. -/
structure SegmentHead where
  nextents : Nat := 0
  totalBlocks : Nat := 0
  level0Slots : Nat → Nat := fun _ => 0
  level1Slots : Nat → Nat := fun _ => 0

/-- The block map of a segment: its head, the slots of the level 0 pages by block, and the special data
of the inverse pointers that were written for this tree. -/
structure BlockMapTree where
  head : SegmentHead
  level0Pages : Nat → Nat → Nat := fun _ _ => 0
  inversePointers : ExtentSize → Nat → Option Nat := fun _ _ => none

structure SegPageLocation where
  extentSize : ExtentSize
  extentId : Nat
  blocknum : Nat
  deriving DecidableEq, Repr

namespace BlockMapTree

def initSegmentHead (segHeadBlocknum : Nat) : BlockMapTree where
  head := { level0Slots := Function.update (fun _ => 0) 0 segHeadBlocknum }

variable (tree : BlockMapTree)

def setInversePointer (size : ExtentSize) (extent special : Nat) : BlockMapTree :=
  { tree with
    inversePointers := fun group block =>
      if group = size ∧ block = extent then some special else tree.inversePointers group block }

def segExtentLocation (extentId : Nat) : Option Nat :=
  if extentId < headerLevel0Slots then some (tree.head.level0Slots extentId)
  else if extentIdToLevel1Slot extentId < headerLevel1Slots then
    some (tree.level0Pages (tree.head.level1Slots (extentIdToLevel1Slot extentId))
      (extentIdToLevel0PageOffset extentId))
  else none

def segLogicToPhysicMapping (logicId : Nat) : Option SegPageLocation :=
  let place := segLogicPageIdToExtentId logicId
  (tree.segExtentLocation place.extentId).map fun extentStart =>
    { extentSize := place.extentSize
      extentId := place.extentId
      blocknum := uint32 (extentStart + place.offset) }

def segInitNewLevel0Page (newExtentId newLevel0Page firstExtent : Nat) : Option BlockMapTree :=
  if extentIdToLevel1Slot newExtentId < headerLevel1Slots then
    some
      { tree with
        level0Pages := Function.update tree.level0Pages newLevel0Page
          (Function.update (fun _ => 0) 0 firstExtent)
        head :=
          { tree.head with
            level1Slots := Function.update tree.head.level1Slots
              (extentIdToLevel1Slot newExtentId) newLevel0Page } }
  else none

def segRecordNewExtentOnLevel0Page (newExtentId newExtentFirstPageno : Nat) : Option BlockMapTree :=
  if extentIdToLevel1Slot newExtentId < headerLevel1Slots then
    let page := tree.head.level1Slots (extentIdToLevel1Slot newExtentId)
    some
      { tree with
        level0Pages := Function.update tree.level0Pages page
          (Function.update (tree.level0Pages page) (extentIdToLevel0PageOffset newExtentId)
            newExtentFirstPageno) }
  else none

def setLevel0Slot (extentId start : Nat) : BlockMapTree :=
  { tree with
    head := { tree.head with level0Slots := Function.update tree.head.level0Slots extentId start } }

/-- The inverse pointer and the counters of a new extent. -/
def countExtent (newExtent : Nat) : BlockMapTree :=
  let size := extentSizeByCount tree.head.nextents
  { tree.setInversePointer size newExtent (specialData tree.head.nextents) with
    head :=
      { tree.head with
        nextents := uint32 (tree.head.nextents + 1)
        totalBlocks := uint32 (tree.head.totalBlocks + size.blocks) } }

/-- `seg_extend_segment`, with the extents that `spc_alloc_extent` returns for the data and, where it is
called, for the level 0 page. Both get the inverse pointer of the new extent. -/
def segExtendSegment (newExtent level0Page : Nat) : Option BlockMapTree :=
  let newExtentId := tree.head.nextents
  let counted := tree.countExtent newExtent
  if newExtentId < headerLevel0Slots then some (counted.setLevel0Slot newExtentId newExtent)
  else if requireNewLevel0Page newExtentId then
    (counted.setInversePointer .size1 level0Page (specialData newExtentId)).segInitNewLevel0Page
      newExtentId level0Page newExtent
  else counted.segRecordNewExtentOnLevel0Page newExtentId newExtent

/-- `free_last_extent`, which is called while there are extents. -/
def freeLastExtent : Option BlockMapTree :=
  let lastExtId := tree.head.nextents - 1
  let size := extentSizeByCount lastExtId
  (tree.segExtentLocation lastExtId).bind fun _ =>
    let head :=
      { tree.head with
        nextents := tree.head.nextents - 1
        totalBlocks := uint32 (tree.head.totalBlocks + 4294967296 - size.blocks) }
    if requireNewLevel0Page lastExtId then
      if extentIdToLevel1Slot lastExtId < headerLevel1Slots then
        some
          { tree with
            head :=
              { head with
                level1Slots := Function.update head.level1Slots (extentIdToLevel1Slot lastExtId)
                  invalidBlockNumber } }
      else none
    else some { tree with head }

/-- The checks of `move_data_extent`: the extent id in the inverse pointer, if the extent is to be moved. -/
def needMove (size : ExtentSize) (extent : Nat) : Option (Option Nat) :=
  match tree.inversePointers size extent with
  | none => some none
  | some extentId =>
    if tree.head.nextents ≤ extentId then some none
    else
      (tree.segExtentLocation extentId).map fun currExtent =>
        if currExtent = extent then some extentId else none

/-- `move_data_extent` in the extent group of a size, with the extent that `eg_alloc_extent` returns. -/
def moveDataExtent (size : ExtentSize) (extent newExtent : Nat) : Option BlockMapTree :=
  (tree.needMove size extent).bind fun need =>
    match need with
    | none => some tree
    | some extentId =>
      let pointed := tree.setInversePointer size newExtent extentId
      if extentId < headerLevel0Slots then some (pointed.setLevel0Slot extentId newExtent)
      else pointed.segRecordNewExtentOnLevel0Page extentId newExtent

end BlockMapTree

/-- The extents that the level 1 slots of the head have room for. -/
def maxExtents : Nat := headerLevel0Slots + headerLevel1Slots * level0PageSlots

theorem maxExtents_eq : maxExtents = 513255 := rfl

variable {extentId other count offset logicId : Nat}

/-- The four ranges of extents; in none of them a block number is cut. -/
theorem extent_ranges (inside : extentId ≤ maxExtents) :
    (extentId < 16 ∧ extentSizeByCount extentId = .size8 ∧ extentIdToLogicBlockNum extentId = extentId * 8) ∨
    (16 ≤ extentId ∧ extentId < 143 ∧ extentSizeByCount extentId = .size128 ∧
      extentIdToLogicBlockNum extentId + 16 * 128 = extentId * 128 + 128) ∨
    (143 ≤ extentId ∧ extentId < 255 ∧ extentSizeByCount extentId = .size1024 ∧
      extentIdToLogicBlockNum extentId + 143 * 1024 = extentId * 1024 + 16384) ∨
    (255 ≤ extentId ∧ extentSizeByCount extentId = .size8192 ∧
      extentIdToLogicBlockNum extentId + 255 * 8192 = extentId * 8192 + 131072) := by
  rw [maxExtents_eq] at inside
  simp only [extentIdToLogicBlockNum, extentSizeByCount, uint32]
  by_cases first : extentId < 16
  · simp only [if_pos first]
    exact Or.inl ⟨first, trivial, by omega⟩
  · by_cases second : extentId < 143
    · simp only [if_neg first, if_pos second]
      exact Or.inr (Or.inl ⟨by omega, second, trivial, by omega⟩)
    · by_cases third : extentId < 255
      · simp only [if_neg first, if_neg second, if_pos third]
        exact Or.inr (Or.inr (Or.inl ⟨by omega, by omega, trivial, by omega⟩))
      · simp only [if_neg first, if_neg second, if_neg third]
        exact Or.inr (Or.inr (Or.inr ⟨by omega, trivial, by omega⟩))

theorem extentIdToLogicBlockNum_le (inside : extentId ≤ maxExtents) :
    extentIdToLogicBlockNum extentId ≤ 4202627072 := by
  have bound := maxExtents_eq
  rcases extent_ranges inside with ⟨low, -, start⟩ | ⟨-, low, -, start⟩ | ⟨-, low, -, start⟩ |
    ⟨-, -, start⟩ <;> omega

theorem extentIdToLogicBlockNum_succ (inside : extentId < maxExtents) :
    extentIdToLogicBlockNum (extentId + 1) =
      extentIdToLogicBlockNum extentId + (extentSizeByCount extentId).blocks := by
  have here := extent_ranges inside.le
  have next := extent_ranges (show extentId + 1 ≤ maxExtents from inside)
  clear inside
  rcases here with ⟨low, size, start⟩ | ⟨high, low, size, start⟩ | ⟨high, low, size, start⟩ |
    ⟨high, size, start⟩ <;> rw [size, ExtentSize.blocks]
  · rcases next with ⟨_, -, next⟩ | ⟨_, _, -, next⟩ | ⟨_, _, -, next⟩ | ⟨_, -, next⟩ <;> omega
  · rcases next with ⟨_, -, next⟩ | ⟨_, _, -, next⟩ | ⟨_, _, -, next⟩ | ⟨_, -, next⟩ <;> omega
  · rcases next with ⟨_, -, next⟩ | ⟨_, _, -, next⟩ | ⟨_, _, -, next⟩ | ⟨_, -, next⟩ <;> omega
  · rcases next with ⟨_, -, next⟩ | ⟨_, _, -, next⟩ | ⟨_, _, -, next⟩ | ⟨_, -, next⟩ <;> omega

theorem segLogicPageIdToExtentId_eq (inside : extentId < maxExtents)
    (within : offset < (extentSizeByCount extentId).blocks) :
    segLogicPageIdToExtentId (extentIdToLogicBlockNum extentId + offset) =
      ⟨extentSizeByCount extentId, extentId, offset⟩ := by
  rw [segLogicPageIdToExtentId]
  rcases extent_ranges inside.le with ⟨low, size, start⟩ | ⟨high, low, size, start⟩ |
    ⟨high, low, size, start⟩ | ⟨high, size, start⟩
  · rw [size, ExtentSize.blocks] at within
    rw [size, if_pos (by omega), ExtentOffset.mk.injEq]
    exact ⟨rfl, by omega, by omega⟩
  · rw [size, ExtentSize.blocks] at within
    rw [size, if_neg (by omega), if_pos (by omega), ExtentOffset.mk.injEq]
    exact ⟨rfl, by omega, by omega⟩
  · rw [size, ExtentSize.blocks] at within
    rw [size, if_neg (by omega), if_neg (by omega), if_pos (by omega), ExtentOffset.mk.injEq]
    exact ⟨rfl, by omega, by omega⟩
  · rw [size, ExtentSize.blocks] at within
    rw [size, if_neg (by omega), if_neg (by omega), if_neg (by omega), ExtentOffset.mk.injEq]
    exact ⟨rfl, by omega, by omega⟩

/-- Every logical block before the end belongs to an extent. -/
theorem exists_extent (room : count ≤ maxExtents) (inside : logicId < extentIdToLogicBlockNum count) :
    ∃ extentId < count, ∃ offset < (extentSizeByCount extentId).blocks,
      logicId = extentIdToLogicBlockNum extentId + offset := by
  induction count with
  | zero => exact absurd inside (Nat.not_lt_zero logicId)
  | succ count ih =>
    rw [extentIdToLogicBlockNum_succ room] at inside
    rcases Nat.lt_or_ge logicId (extentIdToLogicBlockNum count) with before | last
    · obtain ⟨extentId, earlier, found⟩ := ih (Nat.le_of_lt room) before
      exact ⟨extentId, Nat.lt_succ_of_lt earlier, found⟩
    · exact ⟨count, Nat.lt_succ_self count, logicId - extentIdToLogicBlockNum count, by omega, by omega⟩

theorem extentIdToLevel1Slot_lt (inside : extentId < maxExtents) :
    extentIdToLevel1Slot extentId < headerLevel1Slots := by
  rw [maxExtents_eq] at inside
  simp only [extentIdToLevel1Slot, headerLevel0Slots, headerLevel1Slots, level0PageSlots]
  omega

/-- Extents behind the head are told apart by their slots. -/
theorem slots_inj (behind : headerLevel0Slots ≤ extentId) (behind' : headerLevel0Slots ≤ other)
    (slot : extentIdToLevel1Slot extentId = extentIdToLevel1Slot other)
    (offset : extentIdToLevel0PageOffset extentId = extentIdToLevel0PageOffset other) :
    extentId = other := by
  simp only [extentIdToLevel1Slot, extentIdToLevel0PageOffset, level0PageSlots] at slot offset
  omega

theorem requireNewLevel0Page_iff (behind : headerLevel0Slots ≤ extentId) :
    requireNewLevel0Page extentId = true ↔ extentIdToLevel0PageOffset extentId = 0 := by
  rw [requireNewLevel0Page, if_neg (Nat.not_lt.mpr behind), beq_iff_eq, extentIdToLevel0PageOffset]

structure Extent where
  size : ExtentSize
  start : Nat
  deriving DecidableEq, Repr

inductive SegmentEvent where
  | extend (newExtent level0Page : Nat)
  | freeLast
  | move (size : ExtentSize) (extent newExtent : Nat)
  deriving DecidableEq, Repr

structure SegmentSystem where
  tree : BlockMapTree
  /-- The extent that was recorded last for each extent id. -/
  extents : List Extent := []
  outside : Bool := false

namespace SegmentSystem

def start (segHeadBlocknum : Nat) : SegmentSystem where
  tree := BlockMapTree.initSegmentHead segHeadBlocknum

variable (system : SegmentSystem)

def advance (tree : Option BlockMapTree) (extents : List Extent) : SegmentSystem :=
  match tree with
  | some tree => { system with tree, extents }
  | none => { system with outside := true }

@[simp] theorem advance_some (tree : BlockMapTree) (extents : List Extent) :
    system.advance (some tree) extents = { system with tree, extents } := rfl

/-- `free_segment_extents` frees while there are extents. -/
def step : SegmentEvent → SegmentSystem
  | .extend newExtent level0Page =>
    system.advance (system.tree.segExtendSegment newExtent level0Page)
      (system.extents ++ [⟨extentSizeByCount system.tree.head.nextents, newExtent⟩])
  | .freeLast =>
    if 0 < system.tree.head.nextents then
      system.advance system.tree.freeLastExtent system.extents.dropLast
    else system
  | .move size extent newExtent =>
    system.advance (system.tree.moveDataExtent size extent newExtent)
      (match system.tree.needMove size extent with
      | some (some extentId) => system.extents.set extentId ⟨size, newExtent⟩
      | _ => system.extents)

/-- The allocator returns an extent below block `2 ^ 32` that shares no block with those in use. -/
def Fresh (size : ExtentSize) (newExtent : Nat) : Prop :=
  newExtent + size.blocks ≤ 4294967296 ∧ ∀ extent ∈ system.extents, extent.size = size →
      newExtent + size.blocks ≤ extent.start ∨ extent.start + size.blocks ≤ newExtent

/-- What the allocator returns in a step is disjoint from what it returned before. -/
def Disjoint : SegmentEvent → Prop
  | .extend newExtent level0Page =>
    system.Fresh (extentSizeByCount system.tree.head.nextents) newExtent ∧
      ∀ slot, headerLevel0Slots + slot * level0PageSlots < system.tree.head.nextents →
        system.tree.head.level1Slots slot ≠ level0Page
  | .freeLast => True
  | .move size _ newExtent => system.Fresh size newExtent

/-- There is a slot for the new extent; an extent that is moved is in the group of the extent id that its
inverse pointer names. -/
def Within : SegmentEvent → Prop
  | .extend _ _ => system.tree.head.nextents < maxExtents
  | .freeLast => True
  | .move size extent _ => ∀ extentId, system.tree.needMove size extent = some (some extentId) →
      extentSizeByCount extentId = size

structure Sound : Prop where
  inside : system.outside = false
  slots : ∀ extentId < system.tree.head.nextents, extentId < headerLevel0Slots ∨
    extentIdToLevel1Slot extentId < headerLevel1Slots ∧ extentIdToLevel0PageOffset extentId < level0PageSlots
  recorded : system.extents.length = system.tree.head.nextents
  totalBlocks : system.tree.head.totalBlocks = extentIdToLogicBlockNum system.tree.head.nextents
  mapped : ∀ logicId < system.tree.head.totalBlocks, ∃ extentId extent offset,
    system.extents[extentId]? = some extent ∧ offset < extent.size.blocks ∧
      logicId = extentIdToLogicBlockNum extentId + offset ∧
      system.tree.segLogicToPhysicMapping logicId = some ⟨extent.size, extentId, extent.start + offset⟩
  distinct : ∀ first < system.tree.head.totalBlocks, ∀ second < system.tree.head.totalBlocks,
    first ≠ second → ∀ place other, system.tree.segLogicToPhysicMapping first = some place →
      system.tree.segLogicToPhysicMapping second = some other →
      place.extentSize = other.extentSize → place.blocknum ≠ other.blocknum

end SegmentSystem

end OpenGauss.Segment
