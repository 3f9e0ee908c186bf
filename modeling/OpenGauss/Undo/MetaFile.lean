import OpenGauss.Lib.PackedPages
import OpenGauss.Undo.UndoZone

/-! The undo metadata file: the persistent zones, their undo spaces and their slot spaces, each
packed into pages of 512 bytes that end in a CRC, all counted in words of 8 bytes. -/

namespace OpenGauss.Undo

def persistZoneCount : Nat := 1048576 / 3

/-- `ZONE_COUNT_PER_LEVELS`: the zones of one persistence level, the same number on each node. -/
def zoneCountPerLevels (nodeCount : Nat) : Nat := 1048576 / 3 / nodeCount * nodeCount

def undoMetaPageSize : Nat := 512

def undoMetaPageCrcLength : Nat := 4

def pagesPerWrite : Nat := 8

def pagesReadNum : Nat := 16384

theorem zoneCountPerLevels_le (nodeCount : Nat) : zoneCountPerLevels nodeCount ≤ persistZoneCount :=
  Nat.div_mul_le_self _ _

def makeUndoPtr (zid offset : Nat) : Nat := zid <<< 44 ||| offset

def undoPtrGetOffset (undoPtr : Nat) : Nat := undoPtr &&& (2 ^ 44 - 1)

theorem undoPtrGetOffset_makeUndoPtr {offset : Nat} (bounded : offset < undoLogMaxSize) (zid : Nat) :
    undoPtrGetOffset (makeUndoPtr zid offset) = offset := by
  have low : offset < 2 ^ 44 := bounded
  rw [undoPtrGetOffset, makeUndoPtr, ← Nat.shiftLeft_add_eq_or_of_lt low, Nat.and_two_pow_sub_one_eq_mod,
    Nat.shiftLeft_eq, Nat.mul_add_mod', Nat.mod_eq_of_lt low]

theorem undoPtrGetOffset_of_lt {offset : Nat} (bounded : offset < undoLogMaxSize) :
    undoPtrGetOffset offset = offset := by
  have low : offset < 2 ^ 44 := bounded
  rw [undoPtrGetOffset, Nat.and_two_pow_sub_one_eq_mod, Nat.mod_eq_of_lt low]

/-- What the checkpoint keeps of a zone; the defaults are those of `InitZone`. -/
structure ZoneMeta where
  lsn : Nat := 0
  allocateTSlotPtr : Nat := blockHeaderSize
  recycleTSlotPtr : Nat := blockHeaderSize
  insertURecPtr : Nat := blockHeaderSize
  discardURecPtr : Nat := blockHeaderSize
  forceDiscardURecPtr : Nat := blockHeaderSize
  recycleXid : Nat := 0
  deriving DecidableEq, Repr

/-- What the checkpoint keeps of an undo space or a slot space. -/
structure SpaceMeta extends UndoSpace where
  lsn : Nat := 0
  deriving DecidableEq, Repr

/-- Pointers are offsets, and a zone that never took a record is as it was created: the first record
and its transaction slot are allocated under one hold of the zone lock. -/
structure ZoneMeta.Sound (zone : ZoneMeta) : Prop where
  allocate : zone.allocateTSlotPtr < undoLogMaxSize
  recycle : zone.recycleTSlotPtr < undoLogMaxSize
  insert : zone.insertURecPtr < undoLogMaxSize
  discard : zone.discardURecPtr < undoLogMaxSize
  forceDiscard : zone.forceDiscardURecPtr < undoLogMaxSize
  fresh : zone.insertURecPtr = blockHeaderSize → zone = {}

/-- A space that was never extended is as it was created. -/
def SpaceMeta.Sound (space : SpaceMeta) : Prop := space.tail = 0 → space = {}

/-- `UndoZoneMetaInfo`: the version and its padding, then the fields. -/
def ZoneMeta.words (zone : ZoneMeta) : List Nat :=
  [1, zone.lsn, zone.allocateTSlotPtr, zone.recycleTSlotPtr, zone.insertURecPtr, zone.discardURecPtr,
    zone.forceDiscardURecPtr, zone.recycleXid]

def ZoneMeta.ofWords (words : List Nat) : ZoneMeta where
  lsn := words.getD 1 0
  allocateTSlotPtr := words.getD 2 0
  recycleTSlotPtr := words.getD 3 0
  insertURecPtr := words.getD 4 0
  discardURecPtr := words.getD 5 0
  forceDiscardURecPtr := words.getD 6 0
  recycleXid := words.getD 7 0

def SpaceMeta.words (space : SpaceMeta) : List Nat := [1, space.lsn, space.head, space.tail]

def SpaceMeta.ofWords (words : List Nat) : SpaceMeta where
  lsn := words.getD 1 0
  head := words.getD 2 0
  tail := words.getD 3 0

@[simp] theorem ZoneMeta.ofWords_words (zone : ZoneMeta) : ZoneMeta.ofWords zone.words = zone := rfl

@[simp] theorem SpaceMeta.ofWords_words (space : SpaceMeta) : SpaceMeta.ofWords space.words = space := rfl

/-- `GetMetaFromUzone`: the getters put the zone number in front of the offsets. -/
def getMetaFromUzone (zid : Nat) (zone : ZoneMeta) : ZoneMeta :=
  { zone with
    allocateTSlotPtr := undoPtrGetOffset (makeUndoPtr zid zone.allocateTSlotPtr)
    recycleTSlotPtr := undoPtrGetOffset (makeUndoPtr zid zone.recycleTSlotPtr)
    insertURecPtr := undoPtrGetOffset (makeUndoPtr zid zone.insertURecPtr)
    discardURecPtr := undoPtrGetOffset (makeUndoPtr zid zone.discardURecPtr)
    forceDiscardURecPtr := undoPtrGetOffset (makeUndoPtr zid zone.forceDiscardURecPtr) }

/-- `RecoveryZone`: the setters keep the offset bits. -/
def recoveryZone (info : ZoneMeta) : ZoneMeta :=
  { info with
    allocateTSlotPtr := undoPtrGetOffset info.allocateTSlotPtr
    recycleTSlotPtr := undoPtrGetOffset info.recycleTSlotPtr
    insertURecPtr := undoPtrGetOffset info.insertURecPtr
    discardURecPtr := undoPtrGetOffset info.discardURecPtr
    forceDiscardURecPtr := undoPtrGetOffset info.forceDiscardURecPtr }

theorem getMetaFromUzone_sound {zone : ZoneMeta} (sound : zone.Sound) (zid : Nat) :
    getMetaFromUzone zid zone = zone := by
  simp [getMetaFromUzone, undoPtrGetOffset_makeUndoPtr, sound.allocate, sound.recycle, sound.insert,
    sound.discard, sound.forceDiscard]

theorem recoveryZone_sound {zone : ZoneMeta} (sound : zone.Sound) : recoveryZone zone = zone := by
  simp [recoveryZone, undoPtrGetOffset_of_lt, sound.allocate, sound.recycle, sound.insert,
    sound.discard, sound.forceDiscard]

def crc32cEntry (index : UInt32) : UInt32 :=
  (List.range 8).foldl (fun crc _ => if crc &&& 1 = 1 then (crc >>> 1) ^^^ 0x82F63B78 else crc >>> 1) index

/-- `INIT_CRC32C`, `COMP_CRC32C` over the words, lowest byte first, and `FIN_CRC32C`. -/
def crc32c (words : List Nat) : UInt32 :=
  let bytes := words.flatMap fun word => (List.range 8).map fun place => word / 256 ^ place % 256
  bytes.foldl (fun crc byte => crc32cEntry ((crc ^^^ UInt32.ofNat byte) &&& 0xFF) ^^^ (crc >>> 8))
    0xFFFFFFFF ^^^ 0xFFFFFFFF

/-- The stored CRC takes the low half of its word; the rest of the buffer is zero. -/
def crcWord (words : List Nat) : Nat := (crc32c words).toNat

/-- `UNDOZONE_META_PAGE_COUNT` and `UNDOSPACE_META_PAGE_COUNT`. -/
def metaPageCount (unit : Nat) : Nat :=
  if persistZoneCount % unit = 0 then persistZoneCount / unit else persistZoneCount / unit + 1

/-- One of the three sections of the file. `base` is the number of pages before it, `lastUnit` the
divisor by which the checkpoint counts the pages of the last group it writes, `clearsFlag` whether
it clears `needFlushMetaPage` where a group starts. -/
structure MetaSection extends Lib.PageShape where
  base : Nat
  lastUnit : Nat
  clearsFlag : Bool
  perPage_le : perPage ≤ lastUnit
  lastPage : persistZoneCount % perPage ≠ 0

inductive UndoSpaceType where
  | logSpace | slotSpace
  deriving DecidableEq, Repr

def undoZoneCountPerPage : Nat := (undoMetaPageSize - undoMetaPageCrcLength) / 64

def undoSpaceCountPerPage : Nat := (undoMetaPageSize - undoMetaPageCrcLength) / 32

def undoSpaceCountPerWrite : Nat := undoSpaceCountPerPage * pagesPerWrite

def zoneSection : MetaSection where
  width := 8
  perPage := undoZoneCountPerPage
  pageSize := 64
  perPage_pos := by decide
  room := by decide
  base := 0
  lastUnit := undoZoneCountPerPage
  clearsFlag := true
  perPage_le := Nat.le_refl _
  lastPage := by decide

/-- The last group is counted by `UNDOSPACE_COUNT_PER_WRITE` where `CheckPointUndoZone` and both
recoveries count by the page. -/
def spaceSection (type : UndoSpaceType) : MetaSection where
  width := 4
  perPage := undoSpaceCountPerPage
  pageSize := 64
  perPage_pos := by decide
  room := by decide
  base :=
    match type with
    | .logSpace => metaPageCount undoZoneCountPerPage
    | .slotSpace => metaPageCount undoZoneCountPerPage + metaPageCount undoSpaceCountPerPage
  lastUnit := undoSpaceCountPerWrite
  clearsFlag := false
  perPage_le := by decide
  lastPage := by decide

/-- The file and its length, in words. -/
structure MetaFile where
  words : Nat → Nat
  size : Nat

open Lib

def MetaFile.write (file : MetaFile) (start : Nat) (cells : List Nat) : MetaFile where
  words := writeAt file.words start cells
  size := max file.size (start + cells.length)

/-- The variables of the loop, and what it changes: the file and the dirty flags. -/
structure CheckPointState where
  file : MetaFile
  dirty : Nat → Bool
  buffer : Nat → Nat := fun _ => 0
  cycle : Nat := 0
  writeSize : Nat := 0
  needFlush : Bool := false

namespace MetaSection

def perWrite (area : MetaSection) : Nat := area.perPage * pagesPerWrite

/-- The pages of the group that starts at `loop` which one write takes. -/
def writePages (area : MetaSection) (loop : Nat) : Nat :=
  if persistZoneCount - loop < area.perWrite then (persistZoneCount - loop) / area.lastUnit + 1
  else pagesPerWrite

/-- Put the record of `cycle` into the buffer, and the CRC behind the last record of its page. -/
def fill (area : MetaSection) (record : Nat → List Nat) (buffer : Nat → Nat) (cycle : Nat) : Nat → Nat :=
  let page := cycle % area.perWrite / area.perPage
  let filled := writeAt buffer (page * area.pageSize + cycle % area.perPage * area.width) (record cycle)
  if (cycle + 1) % area.perPage = 0 ∨ cycle = persistZoneCount - 1 then
    area.close crcWord filled page
      (if cycle = persistZoneCount - 1 then persistZoneCount % area.perPage else area.perPage)
  else filled

def refresh (area : MetaSection) (record : Nat → List Nat) (state : CheckPointState) : CheckPointState :=
  let buffer := area.fill record state.buffer state.cycle
  let groupEnds := (state.cycle + 1) % area.perWrite = 0 ∨ state.cycle = persistZoneCount - 1
  { state with
    buffer
    dirty := Function.update state.dirty state.cycle false
    file :=
      if groupEnds then
        state.file.write
          (area.base * area.pageSize + state.cycle / area.perWrite * (pagesPerWrite * area.pageSize))
          (readAt buffer 0 state.writeSize)
      else state.file
    needFlush := if groupEnds then false else state.needFlush
    cycle := state.cycle + 1 }

/-- The part of a pass of the outer loop before the flush: start a group, look at the dirty flag. -/
def look (area : MetaSection) (state : CheckPointState) (loop : Nat) : CheckPointState :=
  let started :=
    if loop % area.perWrite = 0 then
      { state with
        cycle := loop
        buffer := fun _ => 0
        writeSize := area.writePages loop * area.pageSize
        needFlush := if area.clearsFlag then false else state.needFlush }
    else state
  if started.dirty loop then { started with needFlush := true } else started

def visit (area : MetaSection) (record : Nat → List Nat) (state : CheckPointState) (loop : Nat) :
    CheckPointState :=
  let seen := area.look state loop
  if seen.needFlush ∧ ((loop + 1) % area.perWrite = 0 ∨ loop + 1 = persistZoneCount) then
    (area.refresh record)^[loop + 1 - seen.cycle] seen
  else seen

def checkPoint (area : MetaSection) (record : Nat → List Nat) (file : MetaFile) (dirty : Nat → Bool) :
    CheckPointState :=
  (List.range persistZoneCount).foldl (area.visit record) { file, dirty }

variable {area : MetaSection} {record : Nat → List Nat}

/-- Whether a group of zone ids starting at `start` holds a dirty one among its first `count`. -/
def anyDirty (dirty : Nat → Bool) (start count : Nat) : Bool :=
  (List.range count).any fun index => dirty (start + index)

theorem anyDirty_succ (dirty : Nat → Bool) (start count : Nat) :
    anyDirty dirty start (count + 1) = (anyDirty dirty start count || dirty (start + count)) := by
  simp [anyDirty, List.range_succ]

theorem perWrite_pos (area : MetaSection) : 0 < area.perWrite :=
  Nat.mul_pos area.perPage_pos (by decide)

theorem perPage_dvd_perWrite (area : MetaSection) : area.perPage ∣ area.perWrite :=
  Nat.dvd_mul_right _ _

/-- The state after the outer loop has looked at the first `count` ids of a group. -/
def collected (area : MetaSection) (state : CheckPointState) (start count : Nat) : CheckPointState :=
  { state with
    cycle := start
    buffer := fun _ => 0
    writeSize := area.writePages start * area.pageSize
    needFlush := anyDirty state.dirty start count }

variable {state : CheckPointState} {start : Nat} {buffer : Nat → Nat}

theorem look_first (aligned : area.perWrite ∣ start) (unset : state.needFlush = false) :
    area.look state start = area.collected state start 1 := by
  have whole : start % area.perWrite = 0 := Nat.mod_eq_zero_of_dvd aligned
  cases dirty : state.dirty start <;> simp [look, collected, anyDirty, whole, unset, dirty]

theorem look_next {start count : Nat} (aligned : area.perWrite ∣ start) (positive : 0 < count)
    (inside : count < area.perWrite) :
    area.look (area.collected state start count) (start + count) =
      area.collected state start (count + 1) := by
  have whole : start % area.perWrite = 0 := Nat.mod_eq_zero_of_dvd aligned
  have later : (start + count) % area.perWrite ≠ 0 := by
    rw [Nat.add_mod, whole, Nat.zero_add, Nat.mod_mod, Nat.mod_eq_of_lt inside]
    exact positive.ne'
  cases dirty : state.dirty (start + count) <;> simp [look, collected, later, anyDirty_succ, dirty]

/-- The ids before the end of a group are only looked at. -/
theorem visit_collect (aligned : area.perWrite ∣ start) (unset : state.needFlush = false) (count : Nat)
    (inside : count + 1 < area.perWrite) (before : start + count + 1 < persistZoneCount) :
    (List.range' start (count + 1)).foldl (area.visit record) state =
      area.collected state start (count + 1) := by
  have whole : start % area.perWrite = 0 := Nat.mod_eq_zero_of_dvd aligned
  have goesOn : ∀ index, index + 1 < area.perWrite → start + index + 1 < persistZoneCount →
      ¬ ((start + index + 1) % area.perWrite = 0 ∨ start + index + 1 = persistZoneCount) := by
    intro index low early ends
    rcases ends with ends | ends
    · rw [Nat.add_assoc, Nat.add_mod, whole, Nat.zero_add, Nat.mod_mod, Nat.mod_eq_of_lt low] at ends
      exact absurd ends (Nat.succ_ne_zero _)
    · exact absurd ends early.ne
  induction count with
  | zero =>
    have stays := goesOn 0 inside before
    simp only [Nat.zero_add, List.range'_one, List.foldl_cons, List.foldl_nil, visit,
      look_first aligned unset]
    rw [if_neg fun flush => stays flush.2]
  | succ count ih =>
    have stays := goesOn (count + 1) inside before
    rw [List.range'_1_concat, List.foldl_append, ih (by omega) (by omega), List.foldl_cons,
      List.foldl_nil, visit, look_next aligned (Nat.succ_pos _) (by omega)]
    rw [if_neg fun flush => stays flush.2]

/-- The buffer holds the first `count` records of the group at `start`, its full pages closed. -/
structure Filled (area : MetaSection) (record : Nat → List Nat) (buffer : Nat → Nat) (start count : Nat) :
    Prop where
  records : ∀ index < count, readAt buffer (area.address index) area.width = record (start + index)
  closed : ∀ index < count, (start + index + 1) % area.perPage = 0 ∨ start + index + 1 = persistZoneCount →
    area.Sealed crcWord buffer (index / area.perPage) (index % area.perPage + 1)

theorem mod_of_aligned {unit start : Nat} (aligned : unit ∣ start) (index : Nat) :
    (start + index) % unit = index % unit := by
  rw [Nat.add_mod, Nat.mod_eq_zero_of_dvd aligned, Nat.zero_add, Nat.mod_mod]

/-- The number of records the CRC covers is always the number of records of the page so far. -/
theorem fill_eq {start index : Nat} (aligned : area.perWrite ∣ start) (inside : index < area.perWrite)
    (below : start + index < persistZoneCount) :
    area.fill record buffer (start + index) =
      if (start + index + 1) % area.perPage = 0 ∨ start + index + 1 = persistZoneCount then
        area.close crcWord (writeAt buffer (area.address index) (record (start + index)))
          (index / area.perPage) (index % area.perPage + 1)
      else writeAt buffer (area.address index) (record (start + index)) := by
  have pageAligned := Nat.dvd_trans area.perPage_dvd_perWrite aligned
  have last : start + index = persistZoneCount - 1 ↔ start + index + 1 = persistZoneCount := by omega
  have slot : (start + index) % area.perPage = index % area.perPage := mod_of_aligned pageAligned index
  have slot_lt := Nat.mod_lt index area.perPage_pos
  have next : (start + index + 1) % area.perPage =
      if index % area.perPage + 1 = area.perPage then 0 else index % area.perPage + 1 := by
    rw [Nat.add_mod_eq_ite, slot]
    rcases Nat.lt_or_ge 1 area.perPage with many | one
    · rw [Nat.mod_eq_of_lt many]
      split <;> split <;> omega
    · have single : area.perPage = 1 := Nat.le_antisymm one area.perPage_pos
      simp [single, Nat.mod_one]
  have count : (start + index + 1) % area.perPage = 0 ∨ start + index + 1 = persistZoneCount →
      (if start + index + 1 = persistZoneCount then persistZoneCount % area.perPage else area.perPage) =
        index % area.perPage + 1 := by
    intro ends
    split
    · rename_i done
      have notFull := area.lastPage
      rw [← done, next] at notFull ⊢
      split
      · rename_i full
        exact absurd (if_pos full) notFull
      · rfl
    · rename_i more
      have zero := ends.resolve_right more
      rw [next] at zero
      split at zero
      · rename_i full
        exact full.symm
      · exact absurd zero (Nat.succ_ne_zero _)
  simp only [fill, last, mod_of_aligned aligned, Nat.mod_eq_of_lt inside, slot]
  by_cases ends : (start + index + 1) % area.perPage = 0 ∨ start + index + 1 = persistZoneCount
  · rw [if_pos ends, if_pos ends, count ends]
    rfl
  · rw [if_neg ends, if_neg ends]
    rfl

theorem next_page {index later : Nat} (before : index < later) (full : (index + 1) % area.perPage = 0) :
    index / area.perPage + 1 ≤ later / area.perPage := by
  have whole := Nat.div_add_mod (index + 1) area.perPage
  have own := Nat.div_add_mod index area.perPage
  have slot := Nat.mod_lt index area.perPage_pos
  have pages : index / area.perPage + 1 = (index + 1) / area.perPage := by
    rw [full, Nat.add_zero] at whole
    exact (Nat.succ_div_of_dvd (Nat.dvd_of_mod_eq_zero full)).symm
  rw [pages]
  exact Nat.div_le_div_right before

theorem Filled.step {start count : Nat} (aligned : area.perWrite ∣ start)
    (lengths : ∀ zone, (record zone).length = area.width) (inside : count < area.perWrite)
    (below : start + count < persistZoneCount) (filled : area.Filled record buffer start count) :
    area.Filled record (area.fill record buffer (start + count)) start (count + 1) := by
  have pageAligned := Nat.dvd_trans area.perPage_dvd_perWrite aligned
  have slot_le : count % area.perPage + 1 ≤ area.perPage := Nat.mod_lt count area.perPage_pos
  rw [fill_eq aligned inside below]
  constructor
  · intro index early
    have written : readAt (writeAt buffer (area.address count) (record (start + count)))
        (area.address index) area.width = record (start + index) := by
      rcases Nat.lt_succ_iff_lt_or_eq.mp early with before | rfl
      · rw [PageShape.read_other buffer (lengths _) before.ne, filled.records index before]
      · exact PageShape.read_same buffer (lengths _)
    split
    · rw [PageShape.read_close crcWord _ slot_le]
      · exact written
      · intro same
        have own := Nat.div_add_mod index area.perPage
        have other := Nat.div_add_mod count area.perPage
        rw [same] at own
        omega
    · exact written
  · intro index early ends
    rcases Nat.lt_succ_iff_lt_or_eq.mp early with before | rfl
    · have full : (index + 1) % area.perPage = 0 := by
        have notLast : start + index + 1 ≠ persistZoneCount := by omega
        have zero := ends.resolve_right notLast
        rwa [Nat.add_assoc, mod_of_aligned pageAligned] at zero
      have later := next_page before full
      have gap := area.page_before later (PageShape.slot_le area.toPageShape index)
      refine (filled.closed index before ends).of_same fun cell low high => ?_
      have outside : writeAt buffer (area.address count) (record (start + count)) cell = buffer cell := by
        refine writeAt_outside buffer (Or.inl ?_)
        unfold PageShape.address
        have pages := Nat.mul_le_mul_right area.pageSize later
        have room := PageShape.slots_room (PageShape.slot_le area.toPageShape index)
        rw [Nat.succ_mul] at pages
        omega
      have pages := Nat.mul_le_mul_right area.pageSize later
      have room := PageShape.slots_room (PageShape.slot_le area.toPageShape index)
      rw [Nat.succ_mul] at pages
      split
      · rw [PageShape.close_outside crcWord _ (by omega), outside]
      · exact outside
    · rw [if_pos ends]
      exact PageShape.sealed_close crcWord _ _ _

theorem filled_nil (area : MetaSection) (record : Nat → List Nat) (buffer : Nat → Nat) (start : Nat) :
    area.Filled record buffer start 0 :=
  ⟨fun _ absent => absurd absent (Nat.not_lt_zero _), fun _ absent => absurd absent (Nat.not_lt_zero _)⟩

/-- The dirty flags after the first `count` ids of a group were refreshed. -/
def cleaned (dirty : Nat → Bool) (start count : Nat) : Nat → Bool :=
  fun zone => if start ≤ zone ∧ zone < start + count then false else dirty zone

theorem cleaned_succ (dirty : Nat → Bool) (start count : Nat) :
    Function.update (cleaned dirty start count) (start + count) false = cleaned dirty start (count + 1) := by
  funext zone
  by_cases same : zone = start + count
  · subst same
    simp [cleaned]
  · rw [Function.update_of_ne same]
    simp only [cleaned]
    congr 1
    apply propext
    omega

/-- The inner loop before the last id of the group. -/
theorem refresh_before (aligned : area.perWrite ∣ start)
    (lengths : ∀ zone, (record zone).length = area.width) (cycle : state.cycle = start) (count : Nat)
    (inside : count < area.perWrite) (below : start + count < persistZoneCount) :
    ∃ buffer, area.Filled record buffer start count ∧ (area.refresh record)^[count] state =
        { state with buffer, dirty := cleaned state.dirty start count, cycle := start + count } := by
  induction count with
  | zero =>
    refine ⟨state.buffer, filled_nil area record _ _, ?_⟩
    have absent : cleaned state.dirty start 0 = state.dirty := by
      funext zone
      exact if_neg (by omega)
    rw [Function.iterate_zero, id, absent, Nat.add_zero, ← cycle]
  | succ count ih =>
    obtain ⟨buffer, filled, reached⟩ := ih (by omega) (by omega)
    refine ⟨area.fill record buffer (start + count), filled.step aligned lengths (by omega) (by omega), ?_⟩
    have inner : ¬ ((start + count + 1) % area.perWrite = 0 ∨ start + count = persistZoneCount - 1) := by
      rw [Nat.add_assoc, mod_of_aligned aligned, Nat.mod_eq_of_lt inside]
      omega
    rw [Function.iterate_succ_apply', reached]
    simp only [refresh, if_neg inner, cleaned_succ]
    rfl

section

variable {state : CheckPointState} {start count : Nat} (aligned : area.perWrite ∣ start)
  (lengths : ∀ zone, (record zone).length = area.width)

include aligned lengths

/-- The inner loop over a whole group writes the buffer. -/
theorem refresh_group (cycle : state.cycle = start)
    (inside : count < area.perWrite) (below : start + count < persistZoneCount)
    (ends : count + 1 = area.perWrite ∨ start + count + 1 = persistZoneCount) :
    ∃ buffer, area.Filled record buffer start (count + 1) ∧ (area.refresh record)^[count + 1] state =
        { state with
          buffer
          dirty := cleaned state.dirty start (count + 1)
          file := state.file.write
            (area.base * area.pageSize + start / area.perWrite * (pagesPerWrite * area.pageSize))
            (readAt buffer 0 state.writeSize)
          needFlush := false
          cycle := start + (count + 1) } := by
  obtain ⟨buffer, filled, reached⟩ := refresh_before aligned lengths cycle count inside below
  refine ⟨area.fill record buffer (start + count), filled.step aligned lengths inside below, ?_⟩
  have last : (start + count + 1) % area.perWrite = 0 ∨ start + count = persistZoneCount - 1 := by
    rcases ends with full | done
    · left
      rw [Nat.add_assoc, mod_of_aligned aligned, full, Nat.mod_self]
    · exact Or.inr (by omega)
  have group : (start + count) / area.perWrite = start / area.perWrite := by
    obtain ⟨groups, rfl⟩ := aligned
    rw [Nat.mul_add_div area.perWrite_pos, Nat.div_eq_of_lt inside, Nat.add_zero,
      Nat.mul_div_cancel_left _ area.perWrite_pos]
  rw [Function.iterate_succ_apply', reached]
  simp only [refresh, if_pos last, cleaned_succ, group]
  rfl

/-- The outer loop over a whole group: it is written when one of its ids is dirty. -/
theorem visit_group (unset : state.needFlush = false)
    (inside : count < area.perWrite) (below : start + count < persistZoneCount)
    (ends : count + 1 = area.perWrite ∨ start + count + 1 = persistZoneCount) :
    ∃ result, (List.range' start (count + 1)).foldl (area.visit record) state = result ∧
      result.needFlush = false ∧
      if anyDirty state.dirty start (count + 1) = true then
        result.dirty = cleaned state.dirty start (count + 1) ∧
        ∃ buffer, area.Filled record buffer start (count + 1) ∧ result.file = state.file.write
            (area.base * area.pageSize + start / area.perWrite * (pagesPerWrite * area.pageSize))
            (readAt buffer 0 (area.writePages start * area.pageSize))
      else result.dirty = state.dirty ∧ result.file = state.file := by
  refine ⟨_, rfl, ?_⟩
  have looked : area.look ((List.range' start count).foldl (area.visit record) state) (start + count) =
      area.collected state start (count + 1) := by
    cases count with
    | zero => exact look_first aligned unset
    | succ count =>
      rw [visit_collect aligned unset count inside (by omega),
        look_next aligned (Nat.succ_pos _) inside]
  have last : (start + count + 1) % area.perWrite = 0 ∨ start + count + 1 = persistZoneCount := by
    rcases ends with full | done
    · left
      rw [Nat.add_assoc, mod_of_aligned aligned, full, Nat.mod_self]
    · exact Or.inr done
  rw [List.range'_1_concat, List.foldl_append, List.foldl_cons, List.foldl_nil, visit, looked]
  cases dirty : anyDirty state.dirty start (count + 1) with
  | false =>
    have still : (area.collected state start (count + 1)).needFlush = false := dirty
    rw [still, if_neg (by simp)]
    exact ⟨dirty, rfl, rfl⟩
  | true =>
    have flush : (area.collected state start (count + 1)).needFlush = true := dirty
    obtain ⟨buffer, filled, reached⟩ := 
      @refresh_group _ _ (area.collected state start (count + 1)) _ _ aligned lengths rfl inside below ends
    have passes : start + count + 1 - (area.collected state start (count + 1)).cycle = count + 1 := by
      simp only [collected]
      omega
    simp only [flush, true_and, if_pos last, passes, reached, if_true]
    exact ⟨rfl, buffer, filled, rfl⟩

end

end MetaSection

end OpenGauss.Undo
