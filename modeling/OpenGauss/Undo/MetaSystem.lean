import OpenGauss.Lib.Run
import OpenGauss.Undo.MetaRecovery

namespace OpenGauss.Undo

open Lib

structure SpaceControl extends SpaceMeta where
  dirty : Bool := false
  deriving DecidableEq, Repr

structure ZoneControl extends ZoneMeta where
  dirty : Bool := false
  undoSpace : SpaceControl := {}
  slotSpace : SpaceControl := {}
  deriving DecidableEq, Repr

def ZoneControl.space (zone : ZoneControl) : UndoSpaceType → SpaceControl
  | .logSpace => zone.undoSpace
  | .slotSpace => zone.slotSpace

def ZoneControl.setSpace (zone : ZoneControl) (type : UndoSpaceType) (space : SpaceControl) : ZoneControl :=
  match type with
  | .logSpace => { zone with undoSpace := space }
  | .slotSpace => { zone with slotSpace := space }

/-- `g_instance.undo_cxt.uZones`; a zone nobody has used yet is `none`. -/
abbrev Zones := Nat → Option ZoneControl

def zoneMeta : Option ZoneControl → ZoneMeta
  | some zone => zone.toZoneMeta
  | none => {}

def spaceMeta (type : UndoSpaceType) : Option ZoneControl → SpaceMeta
  | some zone => (zone.space type).toSpaceMeta
  | none => {}

variable (nodeCount : Nat)

variable (zones : Zones)

/-- What the checkpoint writes for a zone id; ids past the configured count get initial values. -/
def zoneRecord (zid : Nat) : List Nat :=
  match zones zid with
  | some zone =>
    if zid < zoneCountPerLevels nodeCount then (getMetaFromUzone zid zone.toZoneMeta).words
    else ({} : ZoneMeta).words
  | none => ({} : ZoneMeta).words

def spaceRecord (type : UndoSpaceType) (zones : Zones) (zid : Nat) : List Nat :=
  match zones zid with
  | some zone =>
    if zid < zoneCountPerLevels nodeCount then (zone.space type).toSpaceMeta.words
    else ({} : SpaceMeta).words
  | none => ({} : SpaceMeta).words

def zoneFlag (zone : Option ZoneControl) : Bool := (zone.map (·.dirty)).getD false

def spaceFlag (type : UndoSpaceType) (zone : Option ZoneControl) : Bool :=
  (zone.map fun zone => (zone.space type).dirty).getD false

def zoneDirty (zid : Nat) : Bool := zoneFlag (zones zid)

def spaceDirty (type : UndoSpaceType) (zones : Zones) (zid : Nat) : Bool := spaceFlag type (zones zid)

structure MetaSystem where
  zones : Zones
  file : MetaFile

/-- The zones with the dirty flags a checkpoint left. -/
def Zones.withZoneDirty (dirty : Nat → Bool) : Zones :=
  fun zid => (zones zid).map fun zone => { zone with dirty := dirty zid }

def Zones.withSpaceDirty (type : UndoSpaceType) (dirty : Nat → Bool) : Zones :=
  fun zid => (zones zid).map fun zone => zone.setSpace type { zone.space type with dirty := dirty zid }

variable (system : MetaSystem)

def zoneCheckPoint : CheckPointState :=
  zoneSection.checkPoint (zoneRecord nodeCount system.zones) system.file (zoneDirty system.zones)

def spaceCheckPoint (type : UndoSpaceType) (system : MetaSystem) : CheckPointState :=
  (spaceSection type).checkPoint (spaceRecord nodeCount type system.zones) system.file
    (spaceDirty type system.zones)

def afterZones (result : CheckPointState) : MetaSystem where
  zones := zones.withZoneDirty result.dirty
  file := result.file

def afterSpaces (type : UndoSpaceType) (result : CheckPointState) : MetaSystem where
  zones := zones.withSpaceDirty type result.dirty
  file := result.file

def MetaSystem.checkPointUndoZone : MetaSystem :=
  afterZones system.zones (zoneCheckPoint nodeCount system)

def MetaSystem.checkPointUndoSpace (type : UndoSpaceType) (system : MetaSystem) :
    MetaSystem :=
  afterSpaces system.zones type (spaceCheckPoint nodeCount type system)

def MetaSystem.checkPoint : MetaSystem :=
  ((system.checkPointUndoZone nodeCount).checkPointUndoSpace nodeCount .logSpace).checkPointUndoSpace
    nodeCount .slotSpace

/-- `RecoveryUndoZone` at one record: a zone whose insert pointer never moved is not created. -/
def restoredZone (info : ZoneMeta) (zone : Option ZoneControl) : Option ZoneControl :=
  if info.insertURecPtr ≠ blockHeaderSize then
    some { zone.getD {} with toZoneMeta := recoveryZone info }
  else zone

def restoredSpace (type : UndoSpaceType) (info : SpaceMeta) (zone : Option ZoneControl) :
    Option ZoneControl :=
  if info.tail = 0 ∧ zone = none then none
  else some ((zone.getD {}).setSpace type { info with dirty := false })

def recoveryUndoZone (file : MetaFile) (zones : Zones) : Option Zones :=
  zoneSection.recover
    (fun zid words zones => Function.update zones zid (restoredZone (ZoneMeta.ofWords words) (zones zid)))
    file zones

def recoveryUndoSpace (type : UndoSpaceType) (file : MetaFile) (zones : Zones) : Option Zones :=
  (spaceSection type).recover (fun zid words zones =>
      Function.update zones zid (restoredSpace type (SpaceMeta.ofWords words) (zones zid)))
    file zones

/-- `RecoveryUndoSystemMeta`, in a process without any zone. -/
def recoveryUndoSystemMeta (file : MetaFile) : Option Zones := do
  let zones ← recoveryUndoZone file fun _ => none
  let zones ← recoveryUndoSpace .logSpace file zones
  recoveryUndoSpace .slotSpace file zones

/-- A page of `InitZoneMeta` or `InitSpaceMeta`: as many initial records as it holds, and their CRC. -/
def MetaSection.initPage (area : MetaSection) (record : List Nat) (page : Nat) : Nat → Nat :=
  let totalPageCnt := metaPageCount area.perPage
  let count :=
    if page + 1 = totalPageCnt then persistZoneCount - (totalPageCnt - 1) * area.perPage
    else area.perPage
  area.close crcWord
    ((List.range count).foldl (fun buffer slot => writeAt buffer (slot * area.width) record) fun _ => 0)
    0 count

def MetaSection.init (area : MetaSection) (record : List Nat) (file : MetaFile) : MetaFile :=
  (List.range (metaPageCount area.perPage)).foldl
    (fun file page => file.write file.size (readAt (area.initPage record page) 0 area.pageSize)) file

/-- `InitUndoMeta`: the file of a new installation. -/
def initUndoMeta : MetaFile :=
  (spaceSection .slotSpace).init ({} : SpaceMeta).words ((spaceSection .logSpace).init ({} : SpaceMeta).words
      (zoneSection.init ({} : ZoneMeta).words { words := fun _ => 0, size := 0 }))

/-- A change of a zone or a space is everything done to it under one hold of its lock. -/
inductive MetaEvent where
  | getUndoZone (zid : Nat)
  | changeZone (zid : Nat) (next : { zone : ZoneMeta // zone.Sound })
  | changeSpace (type : UndoSpaceType) (zid : Nat) (next : { space : SpaceMeta // space.Sound })
  | checkPoint
  | restart

def MetaSystem.unused (file : MetaFile) : MetaSystem where
  zones _ := none
  file

def MetaSystem.initial : MetaSystem := MetaSystem.unused initUndoMeta

/-- The server does not come up when recovery fails. -/
def MetaSystem.restart : MetaSystem :=
  ((recoveryUndoSystemMeta system.file).map fun zones => { system with zones }).getD system

def MetaSystem.step : MetaEvent → MetaSystem
  | .getUndoZone zid =>
    { system with zones := Function.update system.zones zid (some ((system.zones zid).getD {})) }
  | .changeZone zid next =>
    { system with
      zones := Function.update system.zones zid ((system.zones zid).map fun zone =>
        { zone with toZoneMeta := next.1, dirty := true }) }
  | .changeSpace type zid next =>
    { system with
      zones := Function.update system.zones zid ((system.zones zid).map fun zone =>
        zone.setSpace type { next.1 with dirty := true }) }
  | .checkPoint => system.checkPoint nodeCount
  | .restart => system.restart

namespace MetaSection

section

variable {area : MetaSection} {record : List Nat}

theorem metaPageCount_eq (area : MetaSection) :
    metaPageCount area.perPage = persistZoneCount / area.perPage + 1 :=
  if_neg area.lastPage

/-- A page of the initial file holds the same record everywhere and is closed. -/
theorem initPage_spec (length : record.length = area.width) (page : Nat) : (∀ slot < area.pageRecords page,
      readAt (area.initPage record page) (area.address slot) area.width = record) ∧
    area.Sealed crcWord (area.initPage record page) 0 (area.pageRecords page) := by
  have whole := Nat.div_add_mod persistZoneCount area.perPage
  rw [Nat.mul_comm] at whole
  have count : (if page + 1 = metaPageCount area.perPage then
      persistZoneCount - (metaPageCount area.perPage - 1) * area.perPage else area.perPage) =
      area.pageRecords page := by
    rw [metaPageCount_eq, Nat.add_sub_cancel, pageRecords]
    congr 1
    · exact propext (Nat.add_right_cancel_iff)
    · omega
  have address : ∀ slot < area.perPage, area.address slot = slot * area.width := by
    intro slot inside
    rw [PageShape.address, Nat.div_eq_of_lt inside, Nat.mod_eq_of_lt inside, Nat.zero_mul, Nat.zero_add]
  have filled : ∀ count ≤ area.perPage, ∀ slot < count, readAt ((List.range count).foldl
        (fun buffer slot => writeAt buffer (slot * area.width) record) fun _ => 0)
        (area.address slot) area.width = record := by
    intro count
    induction count with
    | zero => exact fun _ _ absent => absurd absent (Nat.not_lt_zero _)
    | succ count ih =>
      intro few slot inside
      rw [List.range_succ, List.foldl_append, List.foldl_cons, List.foldl_nil, ← address count few]
      rcases Nat.lt_succ_iff_lt_or_eq.mp inside with before | rfl
      · rw [PageShape.read_other _ length before.ne]
        exact ih (Nat.le_of_succ_le few) slot before
      · exact PageShape.read_same _ length
  have few := area.pageRecords_le page
  simp only [initPage, count]
  refine ⟨fun slot inside => ?_, PageShape.sealed_close crcWord _ _ _⟩
  rw [PageShape.read_close crcWord _ few fun _ => ?_]
  · exact filled _ few slot inside
  · rwa [Nat.mod_eq_of_lt (Nat.lt_of_lt_of_le inside few)]

/-- Appending the section to a file that ends where it begins. -/
theorem init_spec (area : MetaSection) (length : record.length = area.width) {file made : MetaFile}
    (start : file.size = area.base * area.pageSize) (done : area.init record file = made) :
    made.size = (area.base + (persistZoneCount / area.perPage + 1)) * area.pageSize ∧
    (∀ zone < persistZoneCount, area.entry made zone = record) ∧ area.Readable made ∧
    ∀ cell < area.base * area.pageSize, made.words cell = file.words cell := by
  have pages : ∀ count,
      let made := (List.range count).foldl (fun file page =>
        file.write file.size (readAt (area.initPage record page) 0 area.pageSize)) file
      made.size = (area.base + count) * area.pageSize ∧
      (∀ page < count, ∀ slot < area.pageRecords page,
        readAt made.words (area.address ((area.base + page) * area.perPage + slot)) area.width = record) ∧
      (∀ page < count, area.Sealed crcWord made.words (area.base + page) (area.pageRecords page)) ∧
      ∀ cell < area.base * area.pageSize, made.words cell = file.words cell := by
    intro count
    induction count with
    | zero =>
      exact ⟨start, fun _ absent => absurd absent (Nat.not_lt_zero _),
        fun _ absent => absurd absent (Nat.not_lt_zero _), fun _ _ => rfl⟩
    | succ count ih =>
      obtain ⟨size, records, closed, before⟩ := ih
      obtain ⟨own, sealed⟩ := initPage_spec length count
      simp only [List.range_succ, List.foldl_append, List.foldl_cons, List.foldl_nil]
      generalize made_eq : (List.range count).foldl (fun file page =>
        file.write file.size (readAt (area.initPage record page) 0 area.pageSize)) file = made at *
      have words : (made.write made.size (readAt (area.initPage record count) 0 area.pageSize)).words =
          area.copyPages made.words (area.initPage record count) (area.base + count) 1 := by
        rw [MetaFile.write, size, PageShape.copyPages, Nat.one_mul]
      refine ⟨?_, ?_, ?_, ?_⟩
      · simp only [MetaFile.write, size, length_readAt, ← Nat.add_assoc, Nat.succ_mul]
        exact Nat.max_eq_right (Nat.le_add_right _ _)
      · intro page early slot inside
        have few := area.pageRecords_le page
        rw [words]
        rcases Nat.lt_succ_iff_lt_or_eq.mp early with old | rfl
        · rw [PageShape.read_copyPages_outside, records page old slot inside]
          left
          have room := Nat.mul_le_mul_right area.perPage (Nat.add_lt_add_left old area.base)
          rw [Nat.succ_mul] at room
          omega
        · rw [PageShape.read_copyPages _ _ (by omega)]
          exact own slot inside
      · intro page early
        rw [words]
        rcases Nat.lt_succ_iff_lt_or_eq.mp early with old | rfl
        · exact PageShape.sealed_copyPages_outside _ (Or.inl (Nat.add_lt_add_left old _))
            (area.pageRecords_le page) (closed page old)
        · exact PageShape.sealed_copyPages made.words (Nat.zero_lt_one) (area.pageRecords_le page) sealed
      · intro cell low
        rw [words, PageShape.copyPages_outside, before cell low]
        exact Or.inl (Nat.lt_of_lt_of_le low (Nat.mul_le_mul_right _ (Nat.le_add_right _ _)))
  have spec := pages (metaPageCount area.perPage)
  unfold init at done
  simp only [done] at spec
  rw [metaPageCount_eq] at spec
  obtain ⟨size, records, closed, before⟩ := spec
  refine ⟨size, fun zone below => ?_, ⟨size.ge, fun page inside => ?_⟩, before⟩
  · have inFile := Nat.div_le_div_right (c := area.perPage) below.le
    have own := Nat.div_add_mod zone area.perPage
    have index : area.base * area.perPage + zone =
        (area.base + zone / area.perPage) * area.perPage + zone % area.perPage := by
      rw [Nat.add_mul, Nat.add_assoc, Nat.mul_comm (zone / _), own]
    rw [entry, index]
    refine records _ (Nat.lt_succ_of_le inFile) _ ?_
    unfold pageRecords
    split
    · rename_i last
      have whole := Nat.div_add_mod persistZoneCount area.perPage
      rw [last] at own
      omega
    · exact Nat.mod_lt _ area.perPage_pos
  · exact closed page (Nat.lt_succ_of_le inside)

end

variable {area other : MetaSection} {record : Nat → List Nat} {file later : MetaFile}

def stop (area : MetaSection) : Nat := area.base + (persistZoneCount / area.perPage + 1)

theorem entry_inside {zone cell : Nat} (below : zone < persistZoneCount)
    (low : area.address (area.base * area.perPage + zone) ≤ cell)
    (high : cell < area.address (area.base * area.perPage + zone) + area.width) :
    area.base * area.pageSize ≤ cell ∧ cell < area.stop * area.pageSize := by
  have first := area.address_mono (Nat.le_add_right (area.base * area.perPage) zone)
  have last : area.base * area.perPage + zone < area.stop * area.perPage := by
    have whole := Nat.div_add_mod persistZoneCount area.perPage
    have slot := Nat.mod_lt persistZoneCount area.perPage_pos
    rw [Nat.mul_comm] at whole
    rw [stop, Nat.add_mul, Nat.add_mul, Nat.one_mul]
    omega
  have gap := area.address_disjoint last
  rw [PageShape.address_pages] at first gap
  omega

theorem entry_congr (same : ∀ cell, area.base * area.pageSize ≤ cell → cell < area.stop * area.pageSize →
    later.words cell = file.words cell) {zone : Nat} (below : zone < persistZoneCount) :
    area.entry later zone = area.entry file zone :=
  readAt_congr fun cell low high =>
    same cell (entry_inside below low high).1 (entry_inside below low high).2

theorem Readable.of_same (readable : area.Readable file) (size : file.size ≤ later.size)
    (same : ∀ cell, area.base * area.pageSize ≤ cell → cell < area.stop * area.pageSize →
      later.words cell = file.words cell) : area.Readable later := by
  refine ⟨Nat.le_trans readable.long size, fun page inFile => ?_⟩
  refine (readable.closed page inFile).of_same fun cell low high => same cell ?_ ?_
  · exact Nat.le_trans (Nat.mul_le_mul_right _ (Nat.le_add_right _ _)) low
  · have width := Nat.mul_le_mul_right area.width (area.pageRecords_le page)
    refine area.page_inside ?_ (Nat.le_trans high (Nat.add_le_add_left width _))
    rw [stop]
    omega

def Apart (area other : MetaSection) : Prop := area.stop ≤ other.base ∨ other.stop ≤ area.base

/-- A cell of one section lies outside of the other, when both have pages of one size. -/
theorem Apart.outside (apart : area.Apart other) (sizes : area.pageSize = other.pageSize) {cell : Nat}
    (low : other.base * other.pageSize ≤ cell) (high : cell < other.stop * other.pageSize) :
    cell < area.base * area.pageSize ∨ area.stop * area.pageSize ≤ cell := by
  rw [sizes]
  rcases apart with before | after
  · exact Or.inr (Nat.le_trans (Nat.mul_le_mul_right _ before) low)
  · exact Or.inl (Nat.lt_of_lt_of_le high (Nat.mul_le_mul_right _ after))

/-- A checkpoint of one section leaves the other sections. -/
theorem checkPoint_apart (apart : area.Apart other) (sizes : area.pageSize = other.pageSize)
    (lengths : ∀ zone, (record zone).length = area.width) (dirty : Nat → Bool) :
    let later := (area.checkPoint record file dirty).file
    (∀ zone < persistZoneCount, other.entry later zone = other.entry file zone) ∧
      (other.Readable file → other.Readable later) := by
  have visited := checkPoint_visited lengths file dirty
  have same : ∀ cell, other.base * other.pageSize ≤ cell → cell < other.stop * other.pageSize →
      (area.checkPoint record file dirty).file.words cell = file.words cell :=
    fun cell low high => visited.outside cell (apart.outside sizes low high)
  exact ⟨fun _ below => entry_congr same below, fun readable => readable.of_same visited.size same⟩

/-- Where the last group is counted by the page, a dirty group is written whole. -/
theorem written_of_dirty (exact : area.lastUnit = area.perPage) {dirty : Nat → Bool} {zone : Nat}
    (below : zone < persistZoneCount) (set : area.GroupDirty dirty zone) : area.Written dirty zone := by
  refine ⟨set, ?_⟩
  have bounds := Nat.div_add_mod zone area.perWrite
  have slot := Nat.mod_lt zone area.perWrite_pos
  rw [Nat.mul_comm] at bounds
  unfold writePages
  split
  · rw [exact]
    exact Nat.lt_succ_of_le (Nat.div_le_div_right (by omega))
  · rw [Nat.div_lt_iff_lt_mul area.perPage_pos, Nat.mul_comm]
    exact slot

end MetaSection

/-- The first id whose spaces the last write does not reach. -/
def firstUnwritten : Nat :=
  persistZoneCount / undoSpaceCountPerWrite * undoSpaceCountPerWrite + undoSpaceCountPerPage

theorem space_written_iff {type : UndoSpaceType} {dirty : Nat → Bool} {zone : Nat}
    (below : zone < persistZoneCount) (set : (spaceSection type).GroupDirty dirty zone) :
    (spaceSection type).Written dirty zone ↔ zone < firstUnwritten := by
  have total : persistZoneCount = 349525 := rfl
  have first : firstUnwritten = 349455 := rfl
  have write : (spaceSection type).perWrite = 120 := rfl
  have page : (spaceSection type).perPage = 15 := rfl
  have unit : (spaceSection type).lastUnit = 120 := rfl
  rw [MetaSection.Written, and_iff_right set, MetaSection.writePages]
  simp only [total, first, write, page, unit, pagesPerWrite] at *
  split <;> omega

end OpenGauss.Undo
