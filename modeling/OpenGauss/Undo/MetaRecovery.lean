import OpenGauss.Undo.MetaSections

/-! Reading a section of the metadata file back: `RecoveryUndoZone` and `RecoveryUndoSpace`. -/

namespace OpenGauss.Undo

open Lib

/-- `read`, short of its size when the file ends before; the block was zeroed. -/
def MetaFile.read (file : MetaFile) (position count : Nat) : Option (Nat → Nat) :=
  if position + count ≤ file.size then
    some fun cell => if cell < count then file.words (position + cell) else 0
  else none

/-- The variables of the loop, and what it changes. -/
structure RecoveryState (Zones : Type) where
  zones : Zones
  position : Nat
  block : Nat → Nat := fun _ => 0
  page : Nat := 0

namespace MetaSection

variable {Zones : Type}

/-- The ids whose records one read takes. -/
def perRead (area : MetaSection) : Nat := area.perPage * pagesReadNum

def readPages (area : MetaSection) (zoneId : Nat) : Nat :=
  if persistZoneCount - zoneId < area.perRead then (persistZoneCount - zoneId) / area.perPage + 1
  else pagesReadNum

def readBlock (area : MetaSection) (file : MetaFile) (state : RecoveryState Zones) (zoneId : Nat) :
    Option (RecoveryState Zones) :=
  if zoneId % area.perRead = 0 then
    (file.read state.position (area.readPages zoneId * area.pageSize)).map fun block =>
      { state with block, position := state.position + area.readPages zoneId * area.pageSize }
  else some state

/-- Check the CRC where a page starts; a difference is an error. -/
def openPage (area : MetaSection) (state : RecoveryState Zones) (zoneId : Nat) :
    Option (RecoveryState Zones) :=
  if zoneId % area.perPage = 0 then
    let page := zoneId % area.perRead / area.perPage * area.pageSize
    let count :=
      if persistZoneCount - zoneId < area.perPage then persistZoneCount - zoneId else area.perPage
    if state.block (page + count * area.width) % 2 ^ 32 =
        crcWord (readAt state.block page (count * area.width)) then
      some { state with page }
    else none
  else some state

def restoreNext (area : MetaSection) (restore : Nat → List Nat → Zones → Zones) (file : MetaFile)
    (state : RecoveryState Zones) (zoneId : Nat) : Option (RecoveryState Zones) := do
  let read ← area.readBlock file state zoneId
  let opened ← area.openPage read zoneId
  let words := readAt opened.block (opened.page + zoneId % area.perPage * area.width) area.width
  some { opened with zones := restore zoneId words opened.zones }

def recover (area : MetaSection) (restore : Nat → List Nat → Zones → Zones) (file : MetaFile)
    (zones : Zones) : Option Zones :=
  ((List.range persistZoneCount).foldlM (area.restoreNext restore file)
    { zones, position := area.base * area.pageSize }).map (·.zones)

variable {area : MetaSection} {file : MetaFile}

theorem crcWord_lt (words : List Nat) : crcWord words < 2 ^ 32 := (crc32c words).toNat_lt

theorem perRead_pos (area : MetaSection) : 0 < area.perRead :=
  Nat.mul_pos area.perPage_pos (by decide)

/-- A page of the section, counted through the blocks before its own. -/
theorem page_eq (area : MetaSection) (zoneId : Nat) : zoneId / area.perPage =
      zoneId / area.perRead * pagesReadNum + zoneId % area.perRead / area.perPage := by
  rw [perRead, ← Nat.div_div_eq_div_mul, Nat.mod_mul_right_div_self, Nat.mul_comm (_ / _ / _)]
  exact (Nat.div_add_mod _ _).symm

variable {zoneId : Nat} {state : RecoveryState Zones}

/-- How far the block at `zoneId` reaches: over every record of it, and never past the section. -/
theorem readPages_spec (area : MetaSection) (below : zoneId < persistZoneCount) :
    zoneId % area.perRead / area.perPage < area.readPages (zoneId / area.perRead * area.perRead) ∧
      zoneId / area.perRead * pagesReadNum + area.readPages (zoneId / area.perRead * area.perRead) ≤
        persistZoneCount / area.perPage + 1 := by
  obtain ⟨start, block⟩ : ∃ start, start = zoneId / area.perRead * area.perRead := ⟨_, rfl⟩
  rw [← block]
  have bounds := Nat.div_add_mod zoneId area.perRead
  have slot := Nat.mod_lt zoneId area.perRead_pos
  rw [Nat.mul_comm, ← block] at bounds
  have pages : start = zoneId / area.perRead * pagesReadNum * area.perPage := by
    rw [block, perRead, Nat.mul_assoc, Nat.mul_comm pagesReadNum]
  have total : persistZoneCount / area.perPage =
      (persistZoneCount - start) / area.perPage + zoneId / area.perRead * pagesReadNum := by
    rw [← Nat.add_mul_div_right _ _ area.perPage_pos, ← pages, Nat.sub_add_cancel (by omega)]
  unfold readPages
  split
  · exact ⟨Nat.lt_succ_of_le (Nat.div_le_div_right (by omega)), by omega⟩
  · rename_i long
    constructor
    · rw [Nat.div_lt_iff_lt_mul area.perPage_pos, Nat.mul_comm]
      exact slot
    · have whole : pagesReadNum ≤ (persistZoneCount - start) / area.perPage := by
        rw [Nat.le_div_iff_mul_le area.perPage_pos, Nat.mul_comm]
        exact Nat.not_lt.mp long
      omega

/-- What the loop has in hand before it comes to `zoneId`. -/
structure Reading (area : MetaSection) (file : MetaFile) (zoneId : Nat) (state : RecoveryState Zones) :
    Prop where
  position : zoneId % area.perRead = 0 → zoneId < persistZoneCount →
    state.position = (area.base + zoneId / area.perRead * pagesReadNum) * area.pageSize
  block : zoneId % area.perRead ≠ 0 →
    ∀ cell < area.readPages (zoneId / area.perRead * area.perRead) * area.pageSize, state.block cell =
        file.words ((area.base + zoneId / area.perRead * pagesReadNum) * area.pageSize + cell)
  after : zoneId % area.perRead ≠ 0 → state.position = (area.base + zoneId / area.perRead * pagesReadNum +
      area.readPages (zoneId / area.perRead * area.perRead)) * area.pageSize
  page : zoneId % area.perPage ≠ 0 → state.page = zoneId % area.perRead / area.perPage * area.pageSize

/-- The block of `zoneId` is in memory. -/
structure Loaded (area : MetaSection) (file : MetaFile) (zoneId : Nat) (state : RecoveryState Zones) :
    Prop where
  block : ∀ cell < area.readPages (zoneId / area.perRead * area.perRead) * area.pageSize, state.block cell =
      file.words ((area.base + zoneId / area.perRead * pagesReadNum) * area.pageSize + cell)
  after : state.position = (area.base + zoneId / area.perRead * pagesReadNum +
      area.readPages (zoneId / area.perRead * area.perRead)) * area.pageSize

theorem readBlock_loaded (readable : area.Readable file) (below : zoneId < persistZoneCount)
    (reading : area.Reading file zoneId state) :
    ∃ read, area.readBlock file state zoneId = some read ∧ read.zones = state.zones ∧
      read.page = state.page ∧ area.Loaded file zoneId read := by
  unfold readBlock
  split
  · rename_i starts
    have own : zoneId / area.perRead * area.perRead = zoneId := by
      have bounds := Nat.div_add_mod zoneId area.perRead
      rwa [starts, Nat.add_zero, Nat.mul_comm] at bounds
    have reach := (readPages_spec area below).2
    rw [own] at reach
    have fits : state.position + area.readPages zoneId * area.pageSize ≤ file.size := by
      rw [reading.position starts below, ← Nat.add_mul]
      exact Nat.le_trans (Nat.mul_le_mul_right _ (by omega)) readable.long
    rw [MetaFile.read, if_pos fits]
    refine ⟨_, rfl, rfl, rfl, ?_, ?_⟩
    · intro cell inside
      rw [own] at inside
      rw [← reading.position starts below]
      exact if_pos inside
    · rw [own, Nat.add_mul _ (area.readPages zoneId), ← reading.position starts below]
  · rename_i inner
    exact ⟨state, rfl, rfl, rfl, reading.block inner, reading.after inner⟩

theorem Loaded.read {zoneId start count : Nat} (loaded : area.Loaded file zoneId state)
    (inside : start + count ≤ area.readPages (zoneId / area.perRead * area.perRead) * area.pageSize) :
    readAt state.block start count = readAt file.words
        ((area.base + zoneId / area.perRead * pagesReadNum) * area.pageSize + start) count := by
  apply List.map_congr_left
  intro index member
  have within := List.mem_range.mp member
  rw [loaded.block _ (by omega), Nat.add_assoc]

theorem page_start (area : MetaSection) (zoneId : Nat) :
    (area.base + zoneId / area.perRead * pagesReadNum) * area.pageSize +
        zoneId % area.perRead / area.perPage * area.pageSize =
      (area.base + zoneId / area.perPage) * area.pageSize := by
  rw [← Nat.add_mul, Nat.add_assoc, ← page_eq]

theorem pageRecords_eq (starts : zoneId % area.perPage = 0) (below : zoneId < persistZoneCount) :
    (if persistZoneCount - zoneId < area.perPage then persistZoneCount - zoneId else area.perPage) =
      area.pageRecords (zoneId / area.perPage) := by
  have own := Nat.div_add_mod zoneId area.perPage
  rw [starts, Nat.add_zero, Nat.mul_comm] at own
  have whole := Nat.div_add_mod persistZoneCount area.perPage
  rw [Nat.mul_comm] at whole
  have slot := Nat.mod_lt persistZoneCount area.perPage_pos
  unfold pageRecords
  by_cases last : zoneId / area.perPage = persistZoneCount / area.perPage
  · rw [if_pos last]
    rw [last] at own
    rw [if_pos (by omega)]
    omega
  · have early := Nat.lt_of_le_of_ne (Nat.div_le_div_right below.le) last
    have room := Nat.mul_le_mul_right area.perPage (Nat.succ_le_of_lt early)
    rw [Nat.succ_mul] at room
    rw [if_neg last, if_neg (by omega)]

theorem openPage_opened (readable : area.Readable file) (below : zoneId < persistZoneCount)
    (loaded : area.Loaded file zoneId state)
    (page : zoneId % area.perPage ≠ 0 → state.page = zoneId % area.perRead / area.perPage * area.pageSize) :
    area.openPage state zoneId =
      some { state with page := zoneId % area.perRead / area.perPage * area.pageSize } := by
  unfold openPage
  split
  · rename_i starts
    have inBlock := (readPages_spec area below).1
    have few := area.pageRecords_le (zoneId / area.perPage)
    have width := Nat.mul_le_mul_right area.width few
    have room := area.page_inside inBlock (Nat.add_le_add_left width _)
    have inFile := readable.closed _ (Nat.div_le_div_right below.le)
    rw [PageShape.Sealed, ← page_start, Nat.add_assoc] at inFile
    simp only [pageRecords_eq starts below]
    rw [if_pos]
    rw [loaded.block _ room, loaded.read room.le, inFile, Nat.mod_eq_of_lt (crcWord_lt _)]
  · rename_i inner
    rw [← page inner]

/-- With a block and a page in memory the loop may go on to the next id. -/
theorem Loaded.next {state result : RecoveryState Zones} (loaded : area.Loaded file zoneId state)
    (block : result.block = state.block) (position : result.position = state.position)
    (page : result.page = zoneId % area.perRead / area.perPage * area.pageSize) :
    area.Reading file (zoneId + 1) result := by
  have pages : area.perPage ∣ area.perRead := Nat.dvd_mul_right _ _
  have bounds := Nat.div_add_mod zoneId area.perRead
  have slot := Nat.mod_lt zoneId area.perRead_pos
  by_cases ends : zoneId % area.perRead + 1 = area.perRead
  · have whole : zoneId + 1 = (zoneId / area.perRead + 1) * area.perRead := by
      rw [Nat.mul_comm] at bounds
      rw [Nat.succ_mul]
      omega
    have starts : (zoneId + 1) % area.perRead = 0 := by rw [whole, Nat.mul_mod_left]
    have newPage : (zoneId + 1) % area.perPage = 0 :=
      Nat.mod_eq_zero_of_dvd (Nat.dvd_trans pages (Nat.dvd_of_mod_eq_zero starts))
    refine ⟨fun _ more => ?_, fun inner => absurd starts inner, fun inner => absurd starts inner,
      fun inner => absurd newPage inner⟩
    have full : area.readPages (zoneId / area.perRead * area.perRead) = pagesReadNum := by
      rw [Nat.succ_mul] at whole
      exact if_neg (by omega)
    rw [position, loaded.after, full, whole, Nat.mul_div_cancel _ area.perRead_pos, Nat.succ_mul,
      Nat.add_assoc]
  · have slot_eq : (zoneId + 1) % area.perRead = zoneId % area.perRead + 1 := by
      rw [Nat.add_mod_eq_ite, if_neg]
      all_goals rw [Nat.mod_eq_of_lt (a := 1) (by omega)]
      omega
    have block_eq : (zoneId + 1) / area.perRead = zoneId / area.perRead := by
      apply Nat.succ_div_of_not_dvd
      intro whole
      rw [Nat.mod_eq_zero_of_dvd whole] at slot_eq
      omega
    refine ⟨fun whole => absurd (slot_eq.symm.trans whole) (Nat.succ_ne_zero _), fun _ => ?_,
      fun _ => ?_, fun inner => ?_⟩
    · rw [block, block_eq]
      exact loaded.block
    · rw [position, block_eq]
      exact loaded.after
    · have same : (zoneId % area.perRead + 1) / area.perPage = zoneId % area.perRead / area.perPage := by
        apply Nat.succ_div_of_not_dvd
        intro whole
        have rest := Nat.mod_eq_zero_of_dvd whole
        rw [← slot_eq, Nat.mod_mod_of_dvd _ pages] at rest
        exact inner rest
      rw [page, slot_eq, same]

variable (restore : Nat → List Nat → Zones → Zones)

theorem restoreNext_spec (readable : area.Readable file) (below : zoneId < persistZoneCount)
    (reading : area.Reading file zoneId state) :
    ∃ next, area.restoreNext restore file state zoneId = some next ∧
      next.zones = restore zoneId (area.entry file zoneId) state.zones ∧
      area.Reading file (zoneId + 1) next := by
  obtain ⟨read, ran, zones, page, loaded⟩ := readBlock_loaded readable below reading
  have opened := openPage_opened readable below loaded fun inner => page.trans (reading.page inner)
  have start : (area.base + zoneId / area.perRead * pagesReadNum) * area.pageSize +
      (zoneId % area.perRead / area.perPage * area.pageSize + zoneId % area.perPage * area.width) =
      area.address (area.base * area.perPage + zoneId) := by
    rw [PageShape.address_add, PageShape.address, ← Nat.add_assoc, page_start, Nat.add_mul, Nat.add_assoc]
  have words : readAt read.block
      (zoneId % area.perRead / area.perPage * area.pageSize + zoneId % area.perPage * area.width)
      area.width = area.entry file zoneId := by
    have inBlock := (readPages_spec area below).1
    have slot := Nat.mul_le_mul_right area.width (PageShape.slot_le area.toPageShape zoneId)
    rw [Nat.succ_mul] at slot
    have room := area.page_inside inBlock (Nat.add_le_add_left (Nat.le_refl _) _)
    rw [loaded.read (by omega), start, entry]
  refine ⟨{ read with
    zones := restore zoneId (area.entry file zoneId) read.zones
    page := zoneId % area.perRead / area.perPage * area.pageSize }, ?_, ?_, ?_⟩
  · simp [restoreNext, ran, opened, words]
  · exact congrArg (restore zoneId (area.entry file zoneId)) zones
  · exact loaded.next rfl rfl rfl

/-- Recovery of a readable section succeeds and hands on every record, in the order of the ids. -/
theorem recover_spec (readable : area.Readable file) (zones : Zones) :
    area.recover restore file zones = some ((List.range persistZoneCount).foldl
        (fun zones zoneId => restore zoneId (area.entry file zoneId) zones) zones) := by
  have reads : ∀ count ≤ persistZoneCount, ∃ state, (List.range count).foldlM (area.restoreNext restore file)
        { zones, position := area.base * area.pageSize } = some state ∧
      state.zones = (List.range count).foldl
        (fun zones zoneId => restore zoneId (area.entry file zoneId) zones) zones ∧
      area.Reading file count state := by
    intro count
    induction count with
    | zero =>
      intro _
      refine ⟨_, rfl, rfl, ?_, ?_, ?_, ?_⟩
      · intro _ _
        simp
      all_goals exact fun inner => absurd (Nat.zero_mod _) inner
    | succ count ih =>
      intro within
      obtain ⟨state, ran, zones_eq, reading⟩ := ih (Nat.le_of_succ_le within)
      obtain ⟨next, step, restored, onward⟩ := restoreNext_spec restore readable within reading
      refine ⟨next, ?_, ?_, onward⟩
      · rw [List.range_succ, List.foldlM_append, ran]
        simpa using step
      · rw [restored, zones_eq, List.range_succ, List.foldl_append]
        rfl
  obtain ⟨state, ran, restored, _⟩ := reads persistZoneCount (Nat.le_refl _)
  rw [recover, ran, Option.map_some, restored]

end MetaSection

end OpenGauss.Undo
