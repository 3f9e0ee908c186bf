import OpenGauss.Segment.ExtentLocate
import OpenGauss.Segment.ExtentReplayRuns

/-! Shrinking the file of an extent group: the size it can shrink to, and the extents in the way.
-/

namespace OpenGauss.Segment

def MapGroup.lastMap (group : MapGroup) : Nat := uint32 (group.firstMap + group.pageCount - 1)

structure ShrinkVictimSelector where
  groups : List MapGroup
  targetSize : Nat
  /-- `last_group + 1`: the groups that are left. -/
  groupsLeft : Nat
  lastMap : Nat
  lastBit : Nat

/-- How the loop over the bits of a map page ends. -/
inductive BitScan where
  | found (extent lastBit : Nat)
  | stopped (lastBit : Nat)
  | exhausted

/-- The loop over the bits of a map page, from `last_bit - 1` down. -/
def scanBits (page : MapPage) (extentSize targetSize : Nat) : Nat → BitScan
  | 0 => .exhausted
  | p + 1 =>
    let extent := uint32 (page.firstPage + p * extentSize)
    if uint32 (extent + extentSize) ≤ targetSize then .stopped (p + 1)
    else if page.bitmap p = true then .found extent p
    else scanBits page extentSize targetSize p

namespace ShrinkVictimSelector

/-- `ShrinkVictimSelector::init`. Without a group the source reads a last map that it never uses. -/
def init (eg : ExtentGroup) (targetSize : Nat) : ShrinkVictimSelector where
  groups := eg.mapHead.groups
  targetSize := targetSize
  groupsLeft := eg.mapHead.groups.length
  lastMap := (eg.mapHead.groups.getLast?.map MapGroup.lastMap).getD 0
  lastBit := mapBitCnt

/-- The loop over `count` map pages of a group, with the block that `next` returns from within it. -/
def scanMaps (eg : ExtentGroup) (selector : ShrinkVictimSelector) : Nat → ShrinkVictimSelector × Option Nat
  | 0 => (selector, none)
  | count + 1 =>
    let page := eg.mapPages selector.lastMap
    let lastBit :=
      if page.dirtyLast + 1 < selector.lastBit then page.dirtyLast + 1 else selector.lastBit
    match scanBits page eg.extentSize.blocks selector.targetSize lastBit with
    | .found extent lastBit => ({ selector with lastBit }, some extent)
    | .stopped lastBit => ({ selector with lastBit }, some invalidBlockNumber)
    | .exhausted =>
      scanMaps eg { selector with lastMap := selector.lastMap - 1, lastBit := mapBitCnt } count

/-- The loop over the groups that are left. -/
def scanGroups (eg : ExtentGroup) (selector : ShrinkVictimSelector) : Nat → ShrinkVictimSelector × Nat
  | 0 => ({ selector with groupsLeft := 0 }, invalidBlockNumber)
  | left + 1 =>
    match selector.groups[left]? with
    | none => (selector, invalidBlockNumber)
    | some group =>
      match scanMaps eg selector (selector.lastMap + 1 - group.firstMap) with
      | (selector, some block) => (selector, block)
      | (selector, none) =>
        let lastMap :=
          if 0 < left then (selector.groups[left - 1]?.map MapGroup.lastMap).getD 0
          else selector.lastMap
        scanGroups eg { selector with groupsLeft := left, lastMap } left

def next (eg : ExtentGroup) (selector : ShrinkVictimSelector) : ShrinkVictimSelector × Nat :=
  scanGroups eg selector selector.groupsLeft

/-- What the calls of `next` return, one after the other. -/
def results (eg : ExtentGroup) (selector : ShrinkVictimSelector) : Nat → Nat
  | 0 => (next eg selector).2
  | call + 1 => results eg (next eg selector).1 call

end ShrinkVictimSelector

/-- The loop of `get_space_shrink_target`: the blocks of data, of map and inverse pointer pages, and the
groups. A round takes at least one block. -/
def shrinkGroups (groupBlocks dataBlocks metaBlocks newGroupCount : Nat) : Nat → Nat × Nat × Nat
  | 0 => (dataBlocks, metaBlocks, newGroupCount)
  | fuel + 1 =>
    if groupBlocks < dataBlocks then
      shrinkGroups groupBlocks (dataBlocks - groupBlocks)
        (uint32 (metaBlocks + (mapGroupSize + ipBlockGroupSize))) (newGroupCount + 1) fuel
    else (dataBlocks, metaBlocks, newGroupCount)

/-- `CM_ALIGN_ANY`, in 64 bits. -/
def cmAlignAny (size align : Nat) : Nat := (size + align - 1) / align * align

structure SpaceShrinkTarget where
  targetSize : Nat
  oldGroupCount : Nat
  newGroupCount : Nat
  deriving DecidableEq, Repr

def getSpaceShrinkTarget (eg : ExtentGroup) : SpaceShrinkTarget :=
  let extents := eg.mapHead.allocatedExtents
  let dataBlocks := uint32 (uint32 (extents * eg.extentSize.blocks) + fileExtendStepBlocks)
  let metaBlocks := mapGroupSize + mapHeadPage + 1 + ipBlockGroupSize
  let groupBlocks := uint32 (eg.extentSize.blocks * mapGroupSize * mapBitCnt)
  let (dataBlocks, metaBlocks, newGroupCount) :=
    shrinkGroups groupBlocks dataBlocks metaBlocks 1 dataBlocks
  let targetSize := uint32 (dataBlocks + metaBlocks)
  { targetSize := uint32 (cmAlignAny targetSize fileExtendStepBlocks)
    oldGroupCount := eg.mapHead.groups.length
    newGroupCount := newGroupCount }

namespace ExtentGroup

variable (eg : ExtentGroup)

/-- The extent is in use, and not wholly below the target. -/
def Victim (targetSize number : Nat) : Prop :=
  eg.bit number = true ∧ targetSize < eg.extentSize.extentStart number + eg.extentSize.blocks

instance (eg : ExtentGroup) (targetSize number : Nat) : Decidable (eg.Victim targetSize number) :=
  inferInstanceAs (Decidable (_ ∧ _))

/-- The extents in the way among the first `count`, from the last one to the first. -/
def victims (targetSize count : Nat) : List Nat :=
  ((List.range count).reverse.filter fun number => eg.Victim targetSize number).map
    eg.extentSize.extentStart

/-- The bits of a map page are looked at from `dirty_last` down. -/
def Examined (number : Nat) : Prop :=
  number % mapBitCnt ≤ (eg.mapPages (eg.extentSize.pageBlock (number / mapBitCnt))).dirtyLast

/-- The end of the extent, as the code computes it, is below the target. -/
def Stops (targetSize number : Nat) : Prop :=
  uint32 (eg.extentSize.extentStart number + eg.extentSize.blocks) ≤ targetSize

instance (eg : ExtentGroup) (targetSize number : Nat) : Decidable (eg.Stops targetSize number) :=
  inferInstanceAs (Decidable (_ ≤ _))

/-- `next` returns when it comes to this extent. -/
def Hit (targetSize number : Nat) : Prop :=
  eg.Examined number ∧ (eg.Stops targetSize number ∨ eg.bit number = true)

/-- The last hit among the extents from `low` to before `high`. -/
def LastHit (targetSize low high number : Nat) : Prop :=
  low ≤ number ∧ number < high ∧ eg.Hit targetSize number ∧
    ∀ later, number < later → later < high → ¬ eg.Hit targetSize later

/-- The calls of `next` return the extents in the way, and nothing after them. -/
def Enumerates (targetSize : Nat) : Prop :=
  ∀ call, (ShrinkVictimSelector.init eg targetSize).results eg call =
    (eg.victims targetSize (eg.mapHead.groups.length * mapGroupExtents))[call]?.getD invalidBlockNumber

/-- As many extents as are in use have their place below the target. -/
def LeavesRoom : Prop :=
  ∀ number < eg.mapHead.allocatedExtents,
    eg.extentSize.extentStart number + eg.extentSize.blocks ≤ (getSpaceShrinkTarget eg).targetSize

/-- The extents in use and a step of the file have place in one group, as 32 bits count its blocks. -/
def OneGroup : Prop :=
  eg.mapHead.allocatedExtents * eg.extentSize.blocks + fileExtendStepBlocks ≤
    uint32 (mapGroupExtents * eg.extentSize.blocks)

end ExtentGroup

open ExtentGroup

variable {eg : ExtentGroup} {targetSize : Nat}

theorem ExtentGroup.LastHit.extend {low middle high number : Nat}
    (last : eg.LastHit targetSize low middle number)
    (absent : ∀ later, middle ≤ later → later < high → ¬ eg.Hit targetSize later)
    (longer : middle ≤ high) : eg.LastHit targetSize low high number := by
  obtain ⟨after, before, hit, alone⟩ := last
  refine ⟨after, by omega, hit, ?_⟩
  intro later behind inside
  by_cases early : later < middle
  · exact alone later behind early
  · exact absent later (by omega) inside

theorem ExtentGroup.LastHit.lower {lower low high number : Nat}
    (last : eg.LastHit targetSize low high number) (longer : lower ≤ low) :
    eg.LastHit targetSize lower high number :=
  ⟨longer.trans last.1, last.2⟩

section Scan

variable (inv : eg.MapInvariant)
include inv

theorem scanBits_spec (targetSize : Nat) {page : Nat}
    (mapped : page < eg.mapHead.groups.length * mapGroupSize) {width : Nat} (inside : width ≤ mapBitCnt)
    (examined : width ≤ (eg.mapPages (eg.extentSize.pageBlock page)).dirtyLast + 1) :
    (∃ p, eg.LastHit targetSize (page * mapBitCnt) (page * mapBitCnt + width) (page * mapBitCnt + p) ∧
      scanBits (eg.mapPages (eg.extentSize.pageBlock page)) eg.extentSize.blocks targetSize width =
        if eg.Stops targetSize (page * mapBitCnt + p) then .stopped (p + 1)
        else .found (uint32 (eg.extentSize.extentStart (page * mapBitCnt + p))) p) ∨
    ((∀ number, page * mapBitCnt ≤ number → number < page * mapBitCnt + width → ¬ eg.Hit targetSize number) ∧
      scanBits (eg.mapPages (eg.extentSize.pageBlock page)) eg.extentSize.blocks targetSize width =
        .exhausted) := by
  induction width with
  | zero =>
    right
    refine ⟨?_, rfl⟩
    intro number after before
    omega
  | succ p ih =>
    have quotient : (page * mapBitCnt + p) / mapBitCnt = page := by
      rw [Nat.mul_comm, Nat.mul_add_div (by decide), Nat.div_eq_of_lt (by omega), Nat.add_zero]
    have remainder : (page * mapBitCnt + p) % mapBitCnt = p := by
      rw [Nat.mul_comm, Nat.mul_add_mod, Nat.mod_eq_of_lt (by omega)]
    have start := eg.extentSize.extentStart_eq (page * mapBitCnt + p)
    rw [quotient, remainder] at start
    have extent : uint32 ((eg.mapPages (eg.extentSize.pageBlock page)).firstPage +
        p * eg.extentSize.blocks) = uint32 (eg.extentSize.extentStart (page * mapBitCnt + p)) := by
      rw [(inv.pages page mapped).2, uint32_add_uint32, start]
    have here : eg.Hit targetSize (page * mapBitCnt + p) ↔ (eg.Stops targetSize (page * mapBitCnt + p) ∨
          (eg.mapPages (eg.extentSize.pageBlock page)).bitmap p = true) := by
      rw [Hit, Examined, bit, quotient, remainder]
      exact and_iff_right (Nat.le_of_lt_succ examined)
    have last : ∀ hit : eg.Hit targetSize (page * mapBitCnt + p), eg.LastHit targetSize
        (page * mapBitCnt) (page * mapBitCnt + (p + 1)) (page * mapBitCnt + p) :=
      fun hit => ⟨by omega, by omega, hit, fun later after before => by omega⟩
    rw [scanBits, extent, uint32_add_uint32]
    by_cases stops : eg.Stops targetSize (page * mapBitCnt + p)
    · left
      refine ⟨p, last (here.mpr (Or.inl stops)), ?_⟩
      rw [if_pos stops]
      exact if_pos stops
    · have above : ¬ uint32 (eg.extentSize.extentStart (page * mapBitCnt + p) +
          eg.extentSize.blocks) ≤ targetSize := stops
      rw [if_neg above]
      by_cases used : (eg.mapPages (eg.extentSize.pageBlock page)).bitmap p = true
      · left
        refine ⟨p, last (here.mpr (Or.inr used)), ?_⟩
        rw [if_pos used, if_neg stops]
      · have miss : ¬ eg.Hit targetSize (page * mapBitCnt + p) := by
          rw [here]
          exact not_or.mpr ⟨stops, used⟩
        rw [if_neg used]
        rcases ih (by omega) (by omega) with ⟨lower, found, scanned⟩ | ⟨absent, scanned⟩
        · left
          refine ⟨lower, found.extend ?_ (by omega), scanned⟩
          intro later after before
          rwa [show later = page * mapBitCnt + p by omega]
        · right
          refine ⟨?_, scanned⟩
          intro number after before
          by_cases top : number = page * mapBitCnt + p
          · rwa [top]
          · exact absent number after (by omega)

end Scan

namespace ShrinkVictimSelector

variable {selector : ShrinkVictimSelector}

/-- The extents from `count` on have been looked at. -/
structure At (eg : ExtentGroup) (targetSize count : Nat) (selector : ShrinkVictimSelector) : Prop where
  groups : selector.groups = eg.mapHead.groups
  targetSize : selector.targetSize = targetSize
  place : selector.groupsLeft = 0 ∧ count = 0 ∨ ∃ group < eg.mapHead.groups.length,
    ∃ page < mapGroupSize, selector.groupsLeft = group + 1 ∧
      selector.lastMap = eg.extentSize.groupStart group + page ∧ selector.lastBit ≤ mapBitCnt ∧
      count = (group * mapGroupSize + page) * mapBitCnt + selector.lastBit

/-- What `next` returns at a hit. -/
def answer (eg : ExtentGroup) (targetSize number : Nat) : Nat :=
  if eg.Stops targetSize number then invalidBlockNumber
  else uint32 (eg.extentSize.extentStart number)

/-- A search that was stopped is stopped again. -/
def rest (eg : ExtentGroup) (targetSize number : Nat) : Nat :=
  if eg.Stops targetSize number then number + 1 else number

section Scan

variable (inv : eg.MapInvariant)
include inv

theorem scanMaps_spec {group count high : Nat} (groups : selector.groups = eg.mapHead.groups)
    (target : selector.targetSize = targetSize) (left : selector.groupsLeft = group + 1)
    (mapped : group < eg.mapHead.groups.length)
    (lastMap : selector.lastMap + 1 = eg.extentSize.groupStart group + count)
    (inside : count ≤ mapGroupSize) (lastBit : selector.lastBit ≤ mapBitCnt)
    (place : high + mapBitCnt = (group * mapGroupSize + count) * mapBitCnt + selector.lastBit)
    (low : group * mapGroupSize * mapBitCnt ≤ high) :
    (∃ number, eg.LastHit targetSize (group * mapGroupSize * mapBitCnt) high number ∧
      (scanMaps eg selector count).2 = some (answer eg targetSize number) ∧
      (scanMaps eg selector count).1.At eg targetSize (rest eg targetSize number)) ∨
    ((∀ number, group * mapGroupSize * mapBitCnt ≤ number → number < high → ¬ eg.Hit targetSize number) ∧
      (scanMaps eg selector count).2 = none ∧
      (scanMaps eg selector count).1.groups = eg.mapHead.groups ∧
      (scanMaps eg selector count).1.targetSize = targetSize ∧
      (scanMaps eg selector count).1.lastBit = mapBitCnt) := by
  induction count generalizing selector high with
  | zero =>
    right
    rw [Nat.add_zero] at place
    refine ⟨?_, rfl, groups, target, ?_⟩
    · intro number after before
      omega
    · change selector.lastBit = mapBitCnt
      omega
  | succ count ih =>
    subst target
    have below : group * mapGroupSize + count < eg.mapHead.groups.length * mapGroupSize := by
      simp only [mapGroupSize] at *
      omega
    have block : selector.lastMap = eg.extentSize.pageBlock (group * mapGroupSize + count) := by
      rw [ExtentSize.pageBlock, Nat.mul_comm, Nat.mul_add_div (by decide),
        Nat.div_eq_of_lt (by omega), Nat.mul_add_mod, Nat.mod_eq_of_lt (by omega), Nat.add_zero]
      omega
    generalize paged : group * mapGroupSize + count = page at *
    rw [← Nat.add_assoc, paged, Nat.add_mul, Nat.one_mul] at place
    have top : high = page * mapBitCnt + selector.lastBit := by omega
    have first : group * mapGroupSize * mapBitCnt ≤ page * mapBitCnt :=
      Nat.mul_le_mul_right _ (by omega)
    obtain ⟨width, clipped, short, examined, unexamined⟩ : ∃ width,
        (if (eg.mapPages selector.lastMap).dirtyLast + 1 < selector.lastBit then
          (eg.mapPages selector.lastMap).dirtyLast + 1 else selector.lastBit) = width ∧
        width ≤ selector.lastBit ∧ width ≤ (eg.mapPages (eg.extentSize.pageBlock page)).dirtyLast + 1 ∧
        ∀ number, page * mapBitCnt + width ≤ number → number < high →
          ¬ eg.Hit selector.targetSize number := by
      rw [block]
      refine ⟨_, rfl, ?_, ?_, ?_⟩
      · split <;> omega
      · split <;> omega
      · rintro number after before ⟨early, -⟩
        have quotient : number / mapBitCnt = page :=
          Nat.div_eq_of_lt_le (by omega) (by rw [Nat.succ_mul]; omega)
        have parts := Nat.div_add_mod' number mapBitCnt
        rw [Examined, quotient] at early
        rw [quotient] at parts
        split at after <;> omega
    rw [scanMaps]
    simp only [clipped]
    have bits := scanBits_spec inv selector.targetSize below (show width ≤ mapBitCnt by omega)
      examined
    rw [← block] at bits
    rcases bits with ⟨p, found, scanned⟩ | ⟨absent, scanned⟩
    · have last := (found.extend unexamined (by omega)).lower first
      have inside := found.2.1
      have there : selector.lastMap = eg.extentSize.groupStart group + count := by omega
      left
      refine ⟨_, last, ?_⟩
      by_cases stops : eg.Stops selector.targetSize (page * mapBitCnt + p)
      · rw [if_pos stops] at scanned
        rw [scanned, answer, rest, if_pos stops, if_pos stops]
        refine ⟨rfl, groups, rfl, Or.inr ⟨group, mapped, count, by omega, left, there, ?_, ?_⟩⟩
        · change p + 1 ≤ mapBitCnt
          omega
        · rw [paged]
          exact Nat.add_assoc _ _ _
      · rw [if_neg stops] at scanned
        rw [scanned, answer, rest, if_neg stops, if_neg stops]
        refine ⟨rfl, groups, rfl, Or.inr ⟨group, mapped, count, by omega, left, there, ?_, ?_⟩⟩
        · change p ≤ mapBitCnt
          omega
        · rw [paged]
    · have positive : 0 < eg.extentSize.groupStart group := by
        unfold ExtentSize.groupStart
        omega
      have empty : ∀ number, page * mapBitCnt ≤ number → number < high →
          ¬ eg.Hit selector.targetSize number := by
        intro number after before
        by_cases early : number < page * mapBitCnt + width
        · exact absent number after early
        · exact unexamined number (by omega) before
      rw [scanned]
      have there : selector.lastMap - 1 + 1 = eg.extentSize.groupStart group + count := by omega
      rcases @ih { selector with lastMap := selector.lastMap - 1, lastBit := mapBitCnt }
          (page * mapBitCnt) groups rfl left there (by omega) le_rfl rfl first with ⟨number, found,
          answered, reached⟩ | ⟨low_none, ended⟩
      · exact Or.inl ⟨number, found.extend empty (by omega), answered, reached⟩
      · refine Or.inr ⟨?_, ended⟩
        intro number after before
        by_cases early : number < page * mapBitCnt
        · exact low_none number after early
        · exact empty number (by omega) before

theorem lastMap_eq {group : Nat} {found : MapGroup} (there : eg.mapHead.groups[group]? = some found) :
    found.lastMap = eg.extentSize.groupStart group + (mapGroupSize - 1) := by
  obtain ⟨firstMap, pageCount, -, -, fits⟩ := inv.groups group found there
  have small := fits.start_lt
  rw [eg.extentSize.extentStart_group, ExtentSize.dataStart] at small
  rw [MapGroup.lastMap, firstMap, pageCount, uint32_of_lt]
  · rfl
  · simp only [invalidBlockNumber, mapGroupSize] at *
    omega

theorem scanGroups_spec {left high : Nat} (here : selector.At eg targetSize high)
    (groupsLeft : selector.groupsLeft = left) :
    (∃ number, eg.LastHit targetSize 0 high number ∧
      (scanGroups eg selector left).2 = answer eg targetSize number ∧
      (scanGroups eg selector left).1.At eg targetSize (rest eg targetSize number)) ∨
    ((∀ number < high, ¬ eg.Hit targetSize number) ∧ (scanGroups eg selector left).2 = invalidBlockNumber ∧
      (scanGroups eg selector left).1.At eg targetSize 0) := by
  induction left generalizing selector high with
  | zero =>
    right
    rcases here.place with ⟨-, rfl⟩ | ⟨group, -, page, -, more, -⟩
    · exact ⟨fun number before => absurd before (Nat.not_lt_zero number), rfl, here.groups,
        here.targetSize, Or.inl ⟨rfl, rfl⟩⟩
    · omega
  | succ left ih =>
    rcases here.place with ⟨absent, -⟩ | ⟨group, mapped, page, inside, more, lastMap, lastBit, place⟩
    · omega
    obtain rfl : group = left := by omega
    have found := List.getElem?_eq_getElem mapped
    have firstMap := (inv.groups _ _ found).1
    rw [scanGroups, here.groups, found]
    dsimp only
    have count : selector.lastMap + 1 - (eg.mapHead.groups[group]).firstMap = page + 1 := by omega
    rw [count]
    have whole : high + mapBitCnt = (group * mapGroupSize + (page + 1)) * mapBitCnt + selector.lastBit := by
      rw [place]
      ring
    have low : group * mapGroupSize * mapBitCnt ≤ high := by
      rw [place, Nat.add_mul]
      omega
    have scan := scanMaps_spec inv here.groups here.targetSize more mapped (by omega) inside lastBit
      whole low
    generalize scanMaps eg selector (page + 1) = scanned at *
    obtain ⟨middle, result⟩ := scanned
    dsimp only at scan
    rcases scan with ⟨number, last, rfl, reached⟩ | ⟨absent, rfl, groups, target, full⟩
    · exact Or.inl ⟨number, last.lower (Nat.zero_le _), rfl, reached⟩
    · dsimp only
      have next : ShrinkVictimSelector.At eg targetSize (group * mapGroupSize * mapBitCnt)
          { middle with
            groupsLeft := group
            lastMap :=
              if 0 < group then (middle.groups[group - 1]?.map MapGroup.lastMap).getD 0
              else middle.lastMap } := by
        refine ⟨groups, target, ?_⟩
        rcases Nat.eq_zero_or_pos group with rfl | more
        · exact Or.inl ⟨rfl, by rw [Nat.zero_mul, Nat.zero_mul]⟩
        · have previous := List.getElem?_eq_getElem (show group - 1 < eg.mapHead.groups.length by omega)
          refine Or.inr ⟨group - 1, by omega, mapGroupSize - 1, by decide, ?_, ?_, full.le, ?_⟩
          · change group = group - 1 + 1
            omega
          · dsimp only
            rw [if_pos more, groups, previous, Option.map_some, Option.getD_some, lastMap_eq inv previous]
          · dsimp only
            rw [full]
            simp only [mapGroupSize, mapBitCnt]
            omega
      rcases ih next rfl with ⟨number, found, answered, reached⟩ | ⟨low_none, ended⟩
      · exact Or.inl ⟨number, found.extend absent low, answered, reached⟩
      · refine Or.inr ⟨?_, ended⟩
        intro number before
        by_cases early : number < group * mapGroupSize * mapBitCnt
        · exact low_none number early
        · exact absent number (by omega) before

theorem next_spec {high : Nat} (here : selector.At eg targetSize high) :
    (∃ number, eg.LastHit targetSize 0 high number ∧ (next eg selector).2 = answer eg targetSize number ∧
      (next eg selector).1.At eg targetSize (rest eg targetSize number)) ∨
    ((∀ number < high, ¬ eg.Hit targetSize number) ∧
      (next eg selector).2 = invalidBlockNumber ∧ (next eg selector).1.At eg targetSize 0) :=
  scanGroups_spec inv here rfl

theorem init_at (targetSize : Nat) :
    (init eg targetSize).At eg targetSize (eg.mapHead.groups.length * mapGroupExtents) := by
  refine ⟨rfl, rfl, ?_⟩
  rcases Nat.eq_zero_or_pos eg.mapHead.groups.length with absent | some_group
  · exact Or.inl ⟨absent, by rw [absent, Nat.zero_mul]⟩
  · have last := List.getElem?_eq_getElem
      (show eg.mapHead.groups.length - 1 < eg.mapHead.groups.length by omega)
    refine Or.inr ⟨eg.mapHead.groups.length - 1, by omega, mapGroupSize - 1, by decide, ?_, ?_, le_rfl,
      ?_⟩
    · change eg.mapHead.groups.length = _
      omega
    · rw [init, List.getLast?_eq_getElem?, last, Option.map_some, Option.getD_some, lastMap_eq inv last]
    · simp only [init, mapGroupSize, mapBitCnt, mapGroupExtents]
      omega

end Scan

end ShrinkVictimSelector

namespace ExtentGroup

theorem victims_succ (eg : ExtentGroup) (targetSize count : Nat) : eg.victims targetSize (count + 1) =
      if eg.Victim targetSize count then eg.extentSize.extentStart count :: eg.victims targetSize count
      else eg.victims targetSize count := by
  unfold victims
  rw [List.range_succ, List.reverse_append, List.reverse_singleton, List.singleton_append, List.filter_cons]
  by_cases victim : eg.Victim targetSize count
  · rw [if_pos (decide_eq_true victim), if_pos victim, List.map_cons]
  · rw [if_neg (by simpa using victim), if_neg victim]

theorem victims_eq_nil {count : Nat} :
    eg.victims targetSize count = [] ↔ ∀ number < count, ¬ eg.Victim targetSize number := by
  unfold victims
  simp

theorem victims_cons {count number : Nat} (before : number < count) (victim : eg.Victim targetSize number)
    (last : ∀ later, number < later → later < count → ¬ eg.Victim targetSize later) :
    eg.victims targetSize count = eg.extentSize.extentStart number :: eg.victims targetSize number := by
  induction count with
  | zero => exact absurd before (Nat.not_lt_zero number)
  | succ count ih =>
    rw [victims_succ]
    by_cases top : number = count
    · rw [← top, if_pos victim]
    · rw [if_neg (last count (by omega) (Nat.lt_succ_self count))]
      exact ih (by omega) fun later after inside => last later after (Nat.lt_succ_of_lt inside)

/-- No examined extent before `count` seems to end below the target with a victim below it. -/
def Clear (eg : ExtentGroup) (targetSize count : Nat) : Prop :=
  ∀ number < count, eg.Examined number → eg.Stops targetSize number →
    ∀ lower < number, ¬ eg.Victim targetSize lower

/-- There is nothing to find, or the ends of examined extents behind the last block number are not below
the target after the cut to 32 bits. -/
def Unwrapped (eg : ExtentGroup) (targetSize : Nat) : Prop :=
  (∀ number, ¬ eg.Victim targetSize number) ∨
    ∀ number < eg.mapHead.groups.length * mapGroupExtents, eg.Examined number →
      4294967296 ≤ eg.extentSize.extentStart number + eg.extentSize.blocks →
      ¬ eg.Stops targetSize number

section Victims

variable (fits : ∀ number, eg.bit number = true → eg.extentSize.Fits number)
include fits

theorem Hit.victim {number : Nat} (hit : eg.Hit targetSize number)
    (goes : ¬ eg.Stops targetSize number) : eg.Victim targetSize number := by
  obtain ⟨-, stops | used⟩ := hit
  · exact absurd stops goes
  · have small := (fits number used).lt
    rw [Stops, uint32_of_lt (by simp only [fileExtendStepBlocks] at small; omega)] at goes
    exact ⟨used, Nat.not_le.mp goes⟩

theorem clear_iff : eg.Clear targetSize (eg.mapHead.groups.length * mapGroupExtents) ↔
    eg.Unwrapped targetSize := by
  constructor
  · intro clear
    by_cases empty : ∀ number, ¬ eg.Victim targetSize number
    · exact Or.inl empty
    obtain ⟨victim, found⟩ := not_forall_not.mp empty
    right
    intro number mapped examined wrapped stops
    refine clear number mapped examined stops victim ?_ found
    by_contra late
    have order := eg.extentSize.extentStart_le (Nat.not_lt.mp late)
    have small := (fits victim found.1).lt
    simp only [fileExtendStepBlocks] at small
    omega
  · rintro (empty | unwrapped) number mapped examined stops lower below victim
    · exact empty lower victim
    · by_cases wrapped : 4294967296 ≤ eg.extentSize.extentStart number + eg.extentSize.blocks
      · exact unwrapped number mapped examined wrapped stops
      · rw [Stops, uint32_of_lt (by omega)] at stops
        have order := eg.extentSize.extentStart_lt below
        have beyond := victim.2
        omega

variable (inv : eg.MapInvariant)
include inv

theorem Victim.hit {number : Nat} (victim : eg.Victim targetSize number) :
    eg.Hit targetSize number ∧ ¬ eg.Stops targetSize number := by
  obtain ⟨used, beyond⟩ := victim
  have mapped := inv.mapped used
  have page : number / mapBitCnt < eg.mapHead.groups.length * mapGroupSize := by
    simp only [mapBitCnt, mapGroupExtents, mapGroupSize] at *
    omega
  refine ⟨⟨(inv.pages _ page).1.dirtyLast _ used, Or.inr used⟩, ?_⟩
  have small := (fits number used).lt
  rw [Stops, uint32_of_lt (by simp only [fileExtendStepBlocks] at small; omega)]
  exact Nat.not_le.mpr beyond

end Victims

end ExtentGroup

namespace ShrinkVictimSelector

variable {selector : ShrinkVictimSelector}

section Run

variable (fits : ∀ number, eg.bit number = true → eg.extentSize.Fits number) (inv : eg.MapInvariant)
include fits inv

theorem answer_victim {number : Nat} (victim : eg.Victim targetSize number) :
    answer eg targetSize number = eg.extentSize.extentStart number ∧ rest eg targetSize number = number ∧
      eg.extentSize.extentStart number ≠ invalidBlockNumber := by
  have goes := (Victim.hit fits inv victim).2
  have small := (fits number victim.1).start_lt
  refine ⟨?_, if_neg goes, ?_⟩
  · rw [answer, if_neg goes, uint32_of_lt]
    simp only [invalidBlockNumber] at small
    omega
  · omega

section

variable {high : Nat} (here : selector.At eg targetSize high)

include here

/-- A call finds the last victim, or ends the search. -/
theorem next_cases : (∃ number, eg.LastHit targetSize 0 high number ∧ eg.Victim targetSize number ∧
      (next eg selector).2 = eg.extentSize.extentStart number ∧
      (next eg selector).1.At eg targetSize number ∧
      eg.victims targetSize high = eg.extentSize.extentStart number :: eg.victims targetSize number) ∨
    ((next eg selector).2 = invalidBlockNumber ∧ (eg.Clear targetSize high →
        eg.victims targetSize high = []) ∧
      ∃ later ≤ high, (next eg selector).1.At eg targetSize later) := by
  have hits : ∀ number, eg.Victim targetSize number → eg.Hit targetSize number :=
    fun number victim => (Victim.hit fits inv victim).1
  rcases next_spec inv here with ⟨number, last, answered, reached⟩ | ⟨absent, answered, reached⟩
  · obtain ⟨-, before, hit, alone⟩ := last
    by_cases stops : eg.Stops targetSize number
    · rw [answer, if_pos stops] at answered
      rw [rest, if_pos stops] at reached
      refine Or.inr ⟨answered, ?_, number + 1, before, reached⟩
      intro clear
      rw [victims_eq_nil]
      intro lower inside victim
      rcases Nat.lt_trichotomy lower number with below | rfl | above
      · exact clear number before hit.1 stops lower below victim
      · exact (Victim.hit fits inv victim).2 stops
      · exact alone lower above inside (hits lower victim)
    · have victim := Hit.victim fits hit stops
      obtain ⟨start, same, -⟩ := answer_victim fits inv victim
      rw [start] at answered
      rw [same] at reached
      exact Or.inl ⟨number, ⟨Nat.zero_le _, before, hit, alone⟩, victim, answered, reached,
        victims_cons before victim fun later above inside found =>
          alone later above inside (hits later found)⟩
  · refine Or.inr ⟨answered, ?_, 0, Nat.zero_le _, reached⟩
    intro _
    rw [victims_eq_nil]
    exact fun number inside victim => absent number inside (hits number victim)

theorem results_clear (clear : eg.Clear targetSize high) (call : Nat) :
    selector.results eg call = (eg.victims targetSize high)[call]?.getD invalidBlockNumber := by
  induction call generalizing selector high with
  | zero =>
    rw [results]
    rcases next_cases fits inv here with ⟨number, -, -, answered, -, victims⟩ | ⟨answered, empty, -⟩
    · rw [answered, victims]
      rfl
    · rw [answered, empty clear]
      rfl
  | succ call ih =>
    rw [results]
    rcases next_cases fits inv here with
      ⟨number, last, -, -, reached, victims⟩ | ⟨-, empty, later, short, reached⟩
    · have lower : eg.Clear targetSize number :=
        fun other before => clear other (before.trans last.2.1)
      rw [ih reached lower, victims, List.getElem?_cons_succ]
    · have lower : eg.Clear targetSize later :=
        fun other before => clear other (before.trans_le short)
      have absent := victims_eq_nil.mp (empty clear)
      rw [ih reached lower, empty clear, victims_eq_nil.mpr fun number before =>
        absent number (before.trans_le short)]
      rfl

theorem clear_of_results (results_eq : ∀ call, selector.results eg call =
      (eg.victims targetSize high)[call]?.getD invalidBlockNumber) : eg.Clear targetSize high := by
  induction high using Nat.strong_induction_on generalizing selector with
  | _ high ih =>
    rcases next_cases fits inv here with
      ⟨number, last, victim, -, reached, victims⟩ | ⟨answered, -⟩
    · have lower : eg.Clear targetSize number := by
        refine ih number last.2.1 reached fun call => ?_
        have next := results_eq (call + 1)
        rwa [results, victims, List.getElem?_cons_succ] at next
      intro other before examined stops
      have hit : eg.Hit targetSize other := ⟨examined, Or.inl stops⟩
      rcases Nat.lt_trichotomy other number with below | rfl | above
      · exact lower other below examined stops
      · exact absurd stops (Victim.hit fits inv victim).2
      · exact absurd hit (last.2.2.2 other above before)
    · have first := results_eq 0
      rw [results, answered] at first
      have empty : eg.victims targetSize high = [] := by
        cases found : eg.victims targetSize high with
        | nil => rfl
        | cons block others =>
          have member : block ∈ eg.victims targetSize high := by
            rw [found]
            exact List.mem_cons_self
          obtain ⟨number, chosen, rfl⟩ := List.mem_map.mp member
          have victim := of_decide_eq_true (List.mem_filter.mp chosen).2
          rw [found] at first
          exact absurd first.symm (answer_victim fits inv victim).2.2
      exact fun other before _ _ lower below =>
        victims_eq_nil.mp empty lower (below.trans before)

end

end Run

end ShrinkVictimSelector

section Target

/-- The loop takes whole groups off the data, and adds pages of map and inverse pointers. -/
theorem shrinkGroups_spec {groupBlocks : Nat} (large : mapGroupSize + ipBlockGroupSize < groupBlocks)
    {dataBlocks metaBlocks fuel : Nat} (newGroupCount : Nat) (enough : dataBlocks ≤ fuel)
    (room : metaBlocks + dataBlocks ≤ 4294967296) :
    ∃ rounds, shrinkGroups groupBlocks dataBlocks metaBlocks newGroupCount fuel =
        (dataBlocks - rounds * groupBlocks,
          metaBlocks + rounds * (mapGroupSize + ipBlockGroupSize), newGroupCount + rounds) ∧
      rounds * groupBlocks ≤ dataBlocks ∧ (rounds = 0 ↔ dataBlocks ≤ groupBlocks) := by
  induction fuel generalizing dataBlocks metaBlocks newGroupCount with
  | zero =>
    refine ⟨0, ?_, ?_, ?_⟩
    · rw [shrinkGroups, Nat.zero_mul, Nat.zero_mul, Nat.sub_zero, Nat.add_zero, Nat.add_zero]
    · omega
    · omega
  | succ fuel ih =>
    rw [shrinkGroups]
    by_cases more : groupBlocks < dataBlocks
    · rw [if_pos more, uint32_of_lt (by omega)]
      obtain ⟨rounds, done, taken, -⟩ := ih (newGroupCount + 1)
        (show dataBlocks - groupBlocks ≤ fuel by omega)
        (show metaBlocks + (mapGroupSize + ipBlockGroupSize) + (dataBlocks - groupBlocks) ≤ _ by
          omega)
      refine ⟨rounds + 1, ?_, ?_, by omega⟩
      · rw [done, Nat.succ_mul, Nat.succ_mul, Prod.mk.injEq, Prod.mk.injEq]
        omega
      · rw [Nat.succ_mul]
        omega
    · refine ⟨0, ?_, ?_, by omega⟩
      · rw [if_neg more, Nat.zero_mul, Nat.zero_mul, Nat.sub_zero, Nat.add_zero, Nat.add_zero]
      · omega

theorem ExtentSize.le_extentStart (size : ExtentSize) (number : Nat) :
    mapHeadPage + 1 + mapGroupSize + ipBlockGroupSize + number * size.blocks ≤
      size.extentStart number := by
  cases size <;>
    simp only [extentStart, dataStart, groupStart, blocks, mapHeadPage, mapGroupSize, ipBlockGroupSize,
      mapGroupExtents] <;> omega

theorem allocatedExtents_room (inv : eg.MapInvariant)
    (fits : ∀ number, eg.bit number = true → eg.extentSize.Fits number) :
    mapHeadPage + 1 + mapGroupSize + ipBlockGroupSize +
        eg.mapHead.allocatedExtents * eg.extentSize.blocks + fileExtendStepBlocks ≤ 4294967296 := by
  rcases Nat.eq_zero_or_pos eg.mapHead.allocatedExtents with absent | present
  · rw [absent, Nat.zero_mul]
    decide
  · have count := inv.allocated
    rw [count] at present
    obtain ⟨last, -, used, all⟩ := Lib.exists_set_of_setCount present
    have small := (fits last used).lt
    have start := eg.extentSize.le_extentStart last
    rw [← count] at all
    have product := Nat.mul_le_mul_right eg.extentSize.blocks all
    rw [Nat.add_mul, Nat.one_mul] at product
    omega

theorem cmAlignAny_bounds (size : Nat) {align : Nat} (positive : 0 < align) :
    size ≤ cmAlignAny size align ∧ cmAlignAny size align < size + align := by
  have parts := Nat.div_add_mod' (size + align - 1) align
  have short := Nat.mod_lt (size + align - 1) positive
  unfold cmAlignAny
  omega

/-- The target, from the rounds of the loop. -/
theorem getSpaceShrinkTarget_eq (inv : eg.MapInvariant)
    (fits : ∀ number, eg.bit number = true → eg.extentSize.Fits number) :
    ∃ rounds, (getSpaceShrinkTarget eg).targetSize = uint32 (cmAlignAny
          (uint32 (eg.mapHead.allocatedExtents * eg.extentSize.blocks + fileExtendStepBlocks -
              rounds * uint32 (mapGroupExtents * eg.extentSize.blocks) +
            (mapGroupSize + mapHeadPage + 1 + ipBlockGroupSize +
              rounds * (mapGroupSize + ipBlockGroupSize)))) fileExtendStepBlocks) ∧
      rounds * uint32 (mapGroupExtents * eg.extentSize.blocks) ≤
        eg.mapHead.allocatedExtents * eg.extentSize.blocks + fileExtendStepBlocks ∧
      (rounds = 0 ↔ eg.OneGroup) := by
  have small := allocatedExtents_room inv fits
  have group : uint32 (eg.extentSize.blocks * mapGroupSize * mapBitCnt) =
      uint32 (mapGroupExtents * eg.extentSize.blocks) := by
    cases eg.extentSize <;> decide
  have large : mapGroupSize + ipBlockGroupSize < uint32 (mapGroupExtents * eg.extentSize.blocks) := by
    cases eg.extentSize <;> decide
  have data : uint32 (uint32 (eg.mapHead.allocatedExtents * eg.extentSize.blocks) + fileExtendStepBlocks) =
        eg.mapHead.allocatedExtents * eg.extentSize.blocks + fileExtendStepBlocks := by
    rw [uint32_add_uint32, uint32_of_lt]
    simp only [mapHeadPage] at small
    omega
  obtain ⟨rounds, done, taken, more⟩ := shrinkGroups_spec large 1 (Nat.le_refl
      (eg.mapHead.allocatedExtents * eg.extentSize.blocks + fileExtendStepBlocks))
    (show mapGroupSize + mapHeadPage + 1 + ipBlockGroupSize + _ ≤ _ by omega)
  refine ⟨rounds, ?_, taken, more⟩
  simp only [getSpaceShrinkTarget, group, data, done]

/-- The target has room for the extents in use when they need one group only. -/
theorem leavesRoom_iff (inv : eg.MapInvariant)
    (fits : ∀ number, eg.bit number = true → eg.extentSize.Fits number) :
    eg.LeavesRoom ↔ eg.OneGroup := by
  obtain ⟨rounds, target, taken, one⟩ := getSpaceShrinkTarget_eq inv fits
  have cut : ∀ value, uint32 value ≤ value := fun value => Nat.mod_le _ _
  unfold LeavesRoom
  rw [target, ← one]
  generalize total : uint32 (_ + _) = size
  obtain ⟨longer, step⟩ := cmAlignAny_bounds size (show 0 < fileExtendStepBlocks by decide)
  constructor
  · intro room
    by_contra present
    have large : mapGroupExtents ≤ uint32 (mapGroupExtents * eg.extentSize.blocks) := by
      cases eg.extentSize <;> decide
    have positive : 0 < eg.mapHead.allocatedExtents := by
      refine Nat.pos_of_ne_zero fun absent => present (one.mpr ?_)
      rw [OneGroup, absent, Nat.zero_mul, Nat.zero_add]
      exact Nat.le_trans (by decide) large
    have last := room (eg.mapHead.allocatedExtents - 1) (Nat.sub_one_lt_of_lt positive)
    have start := eg.extentSize.le_extentStart (eg.mapHead.allocatedExtents - 1)
    have product := Nat.succ_mul (eg.mapHead.allocatedExtents - 1) eg.extentSize.blocks
    rw [Nat.succ_eq_add_one, Nat.sub_add_cancel positive] at product
    have aligned := last.trans (cut _)
    have short := cut (eg.mapHead.allocatedExtents * eg.extentSize.blocks + fileExtendStepBlocks -
        rounds * uint32 (mapGroupExtents * eg.extentSize.blocks) +
      (mapGroupSize + mapHeadPage + 1 + ipBlockGroupSize + rounds * (mapGroupSize + ipBlockGroupSize)))
    have lost := Nat.mul_le_mul_left rounds large
    rw [total] at short
    simp only [mapHeadPage, mapGroupSize, ipBlockGroupSize, mapGroupExtents, fileExtendStepBlocks] at *
    omega
  · rintro rfl number inside
    have needed := one.mp rfl
    unfold OneGroup at needed
    have bound : uint32 (mapGroupExtents * eg.extentSize.blocks) + 20541 ≤ 4294967296 := by
      cases eg.extentSize <;> decide
    rw [Nat.zero_mul, Nat.zero_mul, Nat.sub_zero, uint32_of_lt] at total
    · have positive := eg.extentSize.blocks_pos
      have below : eg.mapHead.allocatedExtents < mapGroupExtents := by
        refine Nat.lt_of_mul_lt_mul_right (a := eg.extentSize.blocks) ?_
        have whole := needed.trans (cut _)
        simp only [fileExtendStepBlocks] at whole
        omega
      have place : eg.extentSize.extentStart number =
          mapHeadPage + 1 + mapGroupSize + ipBlockGroupSize + number * eg.extentSize.blocks := by
        rw [ExtentSize.extentStart, ExtentSize.dataStart, ExtentSize.groupStart,
          Nat.div_eq_of_lt (by omega), Nat.mod_eq_of_lt (by omega), Nat.zero_mul, Nat.add_zero]
      have product := Nat.mul_le_mul_right eg.extentSize.blocks inside
      rw [Nat.succ_mul] at product
      rw [place, uint32_of_lt]
      · simp only [mapHeadPage, mapGroupSize, ipBlockGroupSize, fileExtendStepBlocks] at *
        omega
      · simp only [mapHeadPage, mapGroupSize, ipBlockGroupSize, fileExtendStepBlocks] at *
        omega
    · simp only [mapHeadPage, mapGroupSize, ipBlockGroupSize, fileExtendStepBlocks] at *
      omega

end Target

/-- The extents in the way of a shrink are all found, and the target has room for them, exactly when no
end of an extent wraps to below the target and the extents need one group. -/
theorem shrink_iff (eg : ExtentGroup) (inv : eg.MapInvariant)
    (fits : ∀ number, eg.bit number = true → eg.extentSize.Fits number) (targetSize : Nat) :
    eg.Enumerates targetSize ∧ eg.LeavesRoom ↔ eg.Unwrapped targetSize ∧ eg.OneGroup := by
  refine and_congr ?_ (leavesRoom_iff inv fits)
  have start := ShrinkVictimSelector.init_at inv targetSize
  rw [← clear_iff fits]
  constructor
  · exact ShrinkVictimSelector.clear_of_results fits inv start
  · exact ShrinkVictimSelector.results_clear fits inv start

open ExtentSystem in
/-- Three extents are in use, and the file is to end within the second one. -/
theorem shrink_three : (Lib.run step (start .size8) (List.replicate 3 allocNext)).eg.Enumerates 4170 ∧
      (Lib.run step (start .size8) (List.replicate 3 allocNext)).eg.LeavesRoom := by
  have filled := (run_filled (show ∀ number < 3, ExtentSize.size8.Fits number by decide)).2
  refine (shrink_iff _ filled.inv.map filled.inv.fits 4170).mpr ⟨Or.inr ?_, ?_⟩
  · intro number mapped _ wrapped
    have some_group : (Lib.run step (start .size8) (List.replicate 3 allocNext)).eg.mapHead.groups ≠ [] := by
      intro absent
      rw [absent, List.length_nil, Nat.zero_mul] at mapped
      exact Nat.not_lt_zero number mapped
    have last := (filled.inv.map.lastFirst_fits some_group).1
    rw [lastFirst] at last
    rw [filled.extentSize] at wrapped
    simp only [ExtentSize.extentStart, ExtentSize.dataStart, ExtentSize.groupStart, ExtentSize.blocks,
      mapHeadPage, mapGroupSize, ipBlockGroupSize, mapGroupExtents, maxMapGroupCnt] at *
    omega
  · rw [OneGroup, filled.allocatedExtents, filled.extentSize]
    decide

open ExtentSystem in
/-- One extent more than a group holds beside the step of the file: the blocks of the group are not in
the target. -/
theorem shrink_no_room :
    ¬ (Lib.run step (start .size1) (List.replicate 4159489 allocNext)).eg.LeavesRoom := by
  have fits : ∀ number < 4159489, ExtentSize.size1.Fits number := fun number below =>
    (show ExtentSize.size1.Fits 4159488 by decide).mono (Nat.le_of_lt_succ below)
  have filled := (run_filled fits).2
  rw [leavesRoom_iff filled.inv.map filled.inv.fits, OneGroup, filled.allocatedExtents, filled.extentSize]
  decide

end OpenGauss.Segment
