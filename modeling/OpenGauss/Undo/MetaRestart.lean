import OpenGauss.Undo.MetaSystem

namespace OpenGauss.Undo

open Lib

def zoneEntry (file : MetaFile) (zid : Nat) : ZoneMeta := ZoneMeta.ofWords (zoneSection.entry file zid)

def spaceEntry (type : UndoSpaceType) (file : MetaFile) (zid : Nat) : SpaceMeta :=
  SpaceMeta.ofWords ((spaceSection type).entry file zid)

/-- A file that recovery accepts and whose records can have been written. -/
structure MetaFile.Sound (file : MetaFile) : Prop where
  zoneReadable : zoneSection.Readable file
  spaceReadable : ∀ type, (spaceSection type).Readable file
  zone : ∀ zid < persistZoneCount, (zoneEntry file zid).Sound
  space : ∀ type, ∀ zid < persistZoneCount, (spaceEntry type file zid).Sound

/-- What holds between the memory and the file whenever a checkpoint may start. -/
structure Coherent (nodeCount : Nat) (system : MetaSystem) : Prop where
  file : system.file.Sound
  zone : ∀ zid, (zoneMeta (system.zones zid)).Sound
  space : ∀ type zid, (spaceMeta type (system.zones zid)).Sound
  zoneKept : ∀ zid < zoneCountPerLevels nodeCount, ¬ zoneSection.GroupDirty (zoneDirty system.zones) zid →
    zoneEntry system.file zid = zoneMeta (system.zones zid)
  spaceKept : ∀ type, ∀ zid < zoneCountPerLevels nodeCount,
    ¬ (spaceSection type).GroupDirty (spaceDirty type system.zones) zid →
    spaceEntry type system.file zid = spaceMeta type (system.zones zid)

/-- The spaces the last write does not reach are in the file already. -/
def TailKept (nodeCount : Nat) (system : MetaSystem) : Prop :=
  ∀ type zid, firstUnwritten ≤ zid → zid < zoneCountPerLevels nodeCount →
    spaceEntry type system.file zid = spaceMeta type (system.zones zid)

/-- A restart right after a checkpoint gives every zone its pointers and LSN back, and both its
spaces their head, tail and LSN. -/
def Restores (nodeCount : Nat) (system : MetaSystem) : Prop :=
  ∃ zones, recoveryUndoSystemMeta (system.checkPoint nodeCount).file = some zones ∧
    ∀ zid < zoneCountPerLevels nodeCount, zoneMeta (zones zid) = zoneMeta (system.zones zid) ∧
      ∀ type, spaceMeta type (zones zid) = spaceMeta type (system.zones zid)

theorem zoneMeta_sound_default : ({} : ZoneMeta).Sound :=
  ⟨by decide, by decide, by decide, by decide, by decide, fun _ => rfl⟩

theorem spaceMeta_sound_default : ({} : SpaceMeta).Sound := fun _ => rfl

theorem zone_apart (type : UndoSpaceType) : zoneSection.Apart (spaceSection type) := by
  cases type <;> exact Or.inl (by decide)

theorem space_apart_zone (type : UndoSpaceType) : (spaceSection type).Apart zoneSection := by
  cases type <;> exact Or.inr (by decide)

theorem space_apart {type other : UndoSpaceType} (different : other ≠ type) :
    (spaceSection type).Apart (spaceSection other) := by
  cases type <;> cases other
  · exact absurd rfl different
  · exact Or.inl (by decide)
  · exact Or.inr (by decide)
  · exact absurd rfl different

theorem zoneRecord_length (nodeCount : Nat) (zones : Zones) (zid : Nat) :
    (zoneRecord nodeCount zones zid).length = zoneSection.width := by
  unfold zoneRecord
  split
  · split <;> rfl
  · rfl

theorem spaceRecord_length (nodeCount : Nat) (type : UndoSpaceType) (zones : Zones) (zid : Nat) :
    (spaceRecord nodeCount type zones zid).length = (spaceSection type).width := by
  unfold spaceRecord
  split
  · split <;> rfl
  · rfl

variable {zones : Zones} {type : UndoSpaceType} {later : MetaSystem}

/-- Within the configured count the record of a zone is the zone's own, and a sound one always. -/
theorem ofWords_zoneRecord (sound : ∀ zid, (zoneMeta (zones zid)).Sound) (nodeCount zid : Nat) :
    (zid < zoneCountPerLevels nodeCount →
      ZoneMeta.ofWords (zoneRecord nodeCount zones zid) = zoneMeta (zones zid)) ∧
    (ZoneMeta.ofWords (zoneRecord nodeCount zones zid)).Sound := by
  have own := sound zid
  unfold zoneRecord
  cases found : zones zid with
  | none => exact ⟨fun _ => rfl, zoneMeta_sound_default⟩
  | some zone =>
    rw [found] at own
    dsimp only
    split
    · have same := getMetaFromUzone_sound own zid
      rw [zoneMeta] at same own
      rw [same]
      exact ⟨fun _ => rfl, own⟩
    · rename_i past
      exact ⟨fun below => absurd below past, zoneMeta_sound_default⟩

theorem ofWords_spaceRecord (sound : ∀ zid, (spaceMeta type (zones zid)).Sound) (nodeCount zid : Nat) :
    (zid < zoneCountPerLevels nodeCount →
      SpaceMeta.ofWords (spaceRecord nodeCount type zones zid) = spaceMeta type (zones zid)) ∧
    (SpaceMeta.ofWords (spaceRecord nodeCount type zones zid)).Sound := by
  have own := sound zid
  unfold spaceRecord
  cases found : zones zid with
  | none => exact ⟨fun _ => rfl, spaceMeta_sound_default⟩
  | some zone =>
    rw [found] at own
    dsimp only
    split
    · exact ⟨fun _ => rfl, own⟩
    · rename_i past
      exact ⟨fun below => absurd below past, spaceMeta_sound_default⟩

/-- The dirty flags are all that a checkpoint changes in memory. -/
structure SameValues (zones later : Zones) : Prop where
  zone : ∀ zid, zoneMeta (later zid) = zoneMeta (zones zid)
  space : ∀ type zid, spaceMeta type (later zid) = spaceMeta type (zones zid)

theorem SameValues.trans {first second third : Zones} (front : SameValues first second)
    (back : SameValues second third) : SameValues first third :=
  ⟨fun zid => (back.zone zid).trans (front.zone zid),
    fun type zid => (back.space type zid).trans (front.space type zid)⟩

theorem withZoneDirty_values (zones : Zones) (dirty : Nat → Bool) :
    SameValues zones (zones.withZoneDirty dirty) := by
  constructor
  · intro zid
    unfold Zones.withZoneDirty
    cases zones zid <;> rfl
  · intro type zid
    unfold Zones.withZoneDirty
    cases zones zid <;> cases type <;> rfl

theorem spaceDirty_withZoneDirty (type : UndoSpaceType) (zones : Zones) (dirty : Nat → Bool) :
    spaceDirty type (zones.withZoneDirty dirty) = spaceDirty type zones := by
  funext zid
  unfold spaceDirty Zones.withZoneDirty
  cases zones zid <;> cases type <;> rfl

theorem withSpaceDirty_values (type : UndoSpaceType) (zones : Zones) (dirty : Nat → Bool) :
    SameValues zones (zones.withSpaceDirty type dirty) := by
  constructor
  · intro zid
    unfold Zones.withSpaceDirty
    cases zones zid <;> cases type <;> rfl
  · intro other zid
    unfold Zones.withSpaceDirty
    cases zones zid <;> cases type <;> cases other <;> rfl

theorem spaceDirty_withSpaceDirty {type other : UndoSpaceType} (different : other ≠ type)
    (zones : Zones) (dirty : Nat → Bool) :
    spaceDirty other (zones.withSpaceDirty type dirty) = spaceDirty other zones := by
  funext zid
  unfold spaceDirty Zones.withSpaceDirty
  cases zones zid <;> cases type <;> cases other <;> first | rfl | exact absurd rfl different

variable {nodeCount : Nat} {system : MetaSystem}

theorem zoneCheckPoint_file (sound : ∀ zid, (zoneMeta (system.zones zid)).Sound) (file : system.file.Sound)
    (kept : ∀ zid < zoneCountPerLevels nodeCount, ¬ zoneSection.GroupDirty (zoneDirty system.zones) zid →
      zoneEntry system.file zid = zoneMeta (system.zones zid)) :
    (zoneCheckPoint nodeCount system).file.Sound ∧
    (∀ zid < zoneCountPerLevels nodeCount,
      zoneEntry (zoneCheckPoint nodeCount system).file zid = zoneMeta (system.zones zid)) ∧
    ∀ type, ∀ zid < persistZoneCount,
      spaceEntry type (zoneCheckPoint nodeCount system).file zid = spaceEntry type system.file zid := by
  have lengths := zoneRecord_length nodeCount system.zones
  have visited := MetaSection.checkPoint_visited lengths system.file (zoneDirty system.zones)
  rw [← zoneCheckPoint] at visited
  have spaces : ∀ type, (∀ zid < persistZoneCount,
      (spaceSection type).entry (zoneCheckPoint nodeCount system).file zid =
        (spaceSection type).entry system.file zid) ∧
      ((spaceSection type).Readable system.file →
        (spaceSection type).Readable (zoneCheckPoint nodeCount system).file) :=
    fun type => MetaSection.checkPoint_apart (zone_apart type) rfl lengths _
  have entries : ∀ zid < persistZoneCount, zoneEntry (zoneCheckPoint nodeCount system).file zid =
        ZoneMeta.ofWords (zoneRecord nodeCount system.zones zid) ∨
      (¬ zoneSection.GroupDirty (zoneDirty system.zones) zid ∧
        zoneEntry (zoneCheckPoint nodeCount system).file zid = zoneEntry system.file zid) := by
    intro zid below
    by_cases set : zoneSection.GroupDirty (zoneDirty system.zones) zid
    · have written := MetaSection.written_of_dirty rfl below set
      exact Or.inl (congrArg ZoneMeta.ofWords (visited.written zid below written))
    · exact Or.inr ⟨set, congrArg ZoneMeta.ofWords (visited.kept zid below fun both => set both.2.1)⟩
  refine ⟨⟨visited.readable file.zoneReadable, fun type => (spaces type).2 (file.spaceReadable type),
    fun zid below => ?_, fun type zid below => ?_⟩, fun zid configured => ?_,
    fun type zid below => congrArg SpaceMeta.ofWords ((spaces type).1 zid below)⟩
  · rcases entries zid below with same | same
    · rw [same]
      exact (ofWords_zoneRecord sound nodeCount zid).2
    · rw [same.2]
      exact file.zone zid below
  · rw [spaceEntry, (spaces type).1 zid below]
    exact file.space type zid below
  · rcases entries zid (Nat.lt_of_lt_of_le configured (zoneCountPerLevels_le nodeCount)) with same | same
    · rw [same, (ofWords_zoneRecord sound nodeCount zid).1 configured]
    · rw [same.2, kept zid configured same.1]

theorem spaceCheckPoint_file (sound : ∀ zid, (spaceMeta type (system.zones zid)).Sound)
    (file : system.file.Sound)
    (kept : ∀ zid < zoneCountPerLevels nodeCount, ¬ (spaceSection type).GroupDirty
      (spaceDirty type system.zones) zid → spaceEntry type system.file zid =
      spaceMeta type (system.zones zid)) :
    (spaceCheckPoint nodeCount type system).file.Sound ∧
    (∀ zid < zoneCountPerLevels nodeCount, spaceEntry type (spaceCheckPoint nodeCount type system).file zid =
        if zid < firstUnwritten then spaceMeta type (system.zones zid)
        else spaceEntry type system.file zid) ∧
    (∀ zid < persistZoneCount,
      zoneEntry (spaceCheckPoint nodeCount type system).file zid = zoneEntry system.file zid) ∧
    ∀ other ≠ type, ∀ zid < persistZoneCount,
      spaceEntry other (spaceCheckPoint nodeCount type system).file zid =
        spaceEntry other system.file zid := by
  have lengths := spaceRecord_length nodeCount type system.zones
  have visited := MetaSection.checkPoint_visited lengths system.file (spaceDirty type system.zones)
  rw [← spaceCheckPoint] at visited
  have zones : (∀ zid < persistZoneCount,
      zoneSection.entry (spaceCheckPoint nodeCount type system).file zid =
        zoneSection.entry system.file zid) ∧
      (zoneSection.Readable system.file →
        zoneSection.Readable (spaceCheckPoint nodeCount type system).file) :=
    MetaSection.checkPoint_apart (space_apart_zone type) rfl lengths _
  have others : ∀ other ≠ type, (∀ zid < persistZoneCount,
      (spaceSection other).entry (spaceCheckPoint nodeCount type system).file zid =
        (spaceSection other).entry system.file zid) ∧
      ((spaceSection other).Readable system.file →
        (spaceSection other).Readable (spaceCheckPoint nodeCount type system).file) :=
    fun other different => MetaSection.checkPoint_apart (space_apart different) rfl lengths _
  have entries : ∀ zid < persistZoneCount,
      (zid < firstUnwritten ∧ spaceEntry type (spaceCheckPoint nodeCount type system).file zid =
        SpaceMeta.ofWords (spaceRecord nodeCount type system.zones zid)) ∨
      ((zid < firstUnwritten → ¬ (spaceSection type).GroupDirty (spaceDirty type system.zones) zid) ∧
        spaceEntry type (spaceCheckPoint nodeCount type system).file zid =
          spaceEntry type system.file zid) := by
    intro zid below
    by_cases written : (spaceSection type).Written (spaceDirty type system.zones) zid
    · exact Or.inl ⟨(space_written_iff below written.1).mp written,
        congrArg SpaceMeta.ofWords (visited.written zid below written)⟩
    · exact Or.inr ⟨fun early set => written ((space_written_iff below set).mpr early),
        congrArg SpaceMeta.ofWords (visited.kept zid below fun both => written both.2)⟩
  refine ⟨⟨zones.2 file.zoneReadable, fun other => ?_, fun zid below => ?_, fun other zid below => ?_⟩,
    fun zid configured => ?_, fun zid below => congrArg ZoneMeta.ofWords (zones.1 zid below),
    fun other different zid below => congrArg SpaceMeta.ofWords ((others other different).1 zid below)⟩
  · by_cases same : other = type
    · rw [same]
      exact visited.readable (file.spaceReadable type)
    · exact (others other same).2 (file.spaceReadable other)
  · rw [zoneEntry, zones.1 zid below]
    exact file.zone zid below
  · by_cases same : other = type
    · subst same
      rcases entries zid below with new | old
      · rw [new.2]
        exact (ofWords_spaceRecord sound nodeCount zid).2
      · rw [old.2]
        exact file.space other zid below
    · rw [spaceEntry, (others other same).1 zid below]
      exact file.space other zid below
  · rcases entries zid (Nat.lt_of_lt_of_le configured (zoneCountPerLevels_le nodeCount)) with new | old
    · rw [new.2, if_pos new.1, (ofWords_spaceRecord sound nodeCount zid).1 configured]
    · rw [old.2]
      split
      · rename_i early
        exact kept zid configured (old.1 early)
      · rfl

/-- What a checkpoint leaves in the file and in memory. -/
structure CheckPointed (nodeCount : Nat) (system later : MetaSystem) : Prop where
  file : later.file.Sound
  values : SameValues system.zones later.zones
  zone : ∀ zid < zoneCountPerLevels nodeCount, zoneEntry later.file zid = zoneMeta (system.zones zid)
  space : ∀ type, ∀ zid < zoneCountPerLevels nodeCount, spaceEntry type later.file zid =
      if zid < firstUnwritten then spaceMeta type (system.zones zid) else spaceEntry type system.file zid

theorem afterZones_file (zones : Zones) (result : CheckPointState) :
    (afterZones zones result).file = result.file := rfl

theorem afterZones_zones (zones : Zones) (result : CheckPointState) :
    (afterZones zones result).zones = zones.withZoneDirty result.dirty := rfl

theorem afterSpaces_file (zones : Zones) (type : UndoSpaceType) (result : CheckPointState) :
    (afterSpaces zones type result).file = result.file := rfl

theorem afterSpaces_zones (zones : Zones) (type : UndoSpaceType) (result : CheckPointState) :
    (afterSpaces zones type result).zones = zones.withSpaceDirty type result.dirty := rfl

theorem checkPointUndoZone_spec (coherent : Coherent nodeCount system)
    (done : system.checkPointUndoZone nodeCount = later) :
    later.file.Sound ∧ SameValues system.zones later.zones ∧
    (∀ zid < zoneCountPerLevels nodeCount, zoneEntry later.file zid = zoneMeta (system.zones zid)) ∧
    (∀ type, ∀ zid < persistZoneCount, spaceEntry type later.file zid = spaceEntry type system.file zid) ∧
    ∀ type, spaceDirty type later.zones = spaceDirty type system.zones := by
  obtain ⟨sound, zones, spaces⟩ := zoneCheckPoint_file coherent.zone coherent.file coherent.zoneKept
  rw [← done, MetaSystem.checkPointUndoZone, afterZones_file, afterZones_zones]
  exact ⟨sound, withZoneDirty_values _ _, zones, spaces, fun type => spaceDirty_withZoneDirty type _ _⟩

theorem checkPointUndoSpace_spec (sound : ∀ zid, (spaceMeta type (system.zones zid)).Sound)
    (file : system.file.Sound)
    (kept : ∀ zid < zoneCountPerLevels nodeCount, ¬ (spaceSection type).GroupDirty
      (spaceDirty type system.zones) zid → spaceEntry type system.file zid =
      spaceMeta type (system.zones zid))
    (done : system.checkPointUndoSpace nodeCount type = later) :
    later.file.Sound ∧ SameValues system.zones later.zones ∧
    (∀ zid < zoneCountPerLevels nodeCount, spaceEntry type later.file zid =
        if zid < firstUnwritten then spaceMeta type (system.zones zid)
        else spaceEntry type system.file zid) ∧
    (∀ zid < persistZoneCount, zoneEntry later.file zid = zoneEntry system.file zid) ∧
    (∀ other ≠ type, ∀ zid < persistZoneCount,
      spaceEntry other later.file zid = spaceEntry other system.file zid) ∧
    ∀ other ≠ type, spaceDirty other later.zones = spaceDirty other system.zones := by
  obtain ⟨soundFile, own, zones, others⟩ := spaceCheckPoint_file sound file kept
  rw [← done, MetaSystem.checkPointUndoSpace, afterSpaces_file, afterSpaces_zones]
  exact ⟨soundFile, withSpaceDirty_values _ _ _, own, zones, others,
    fun other different => spaceDirty_withSpaceDirty different _ _⟩

theorem checkPoint_spec (coherent : Coherent nodeCount system) :
    CheckPointed nodeCount system (system.checkPoint nodeCount) := by
  have inFile : ∀ {zid}, zid < zoneCountPerLevels nodeCount → zid < persistZoneCount :=
    fun below => Nat.lt_of_lt_of_le below (zoneCountPerLevels_le nodeCount)
  rw [MetaSystem.checkPoint]
  generalize firstDone : system.checkPointUndoZone nodeCount = first
  generalize secondDone : first.checkPointUndoSpace nodeCount .logSpace = second
  generalize thirdDone : second.checkPointUndoSpace nodeCount .slotSpace = third
  obtain ⟨sound1, values1, zones1, spaces1, flags1⟩ := checkPointUndoZone_spec coherent firstDone
  have kept1 : ∀ type, ∀ zid < zoneCountPerLevels nodeCount,
      ¬ (spaceSection type).GroupDirty (spaceDirty type first.zones) zid →
      spaceEntry type first.file zid = spaceMeta type (first.zones zid) := by
    intro type zid configured idle
    rw [flags1] at idle
    rw [spaces1 type zid (inFile configured), values1.space, coherent.spaceKept type zid configured idle]
  have space1 : ∀ zid, (spaceMeta .logSpace (first.zones zid)).Sound := by
    intro zid
    rw [values1.space]
    exact coherent.space .logSpace zid
  obtain ⟨sound2, values2, logs2, zones2, slots2, flags2⟩ :=
    checkPointUndoSpace_spec space1 sound1 (kept1 .logSpace) secondDone
  have kept2 : ∀ zid < zoneCountPerLevels nodeCount,
      ¬ (spaceSection .slotSpace).GroupDirty (spaceDirty .slotSpace second.zones) zid →
      spaceEntry .slotSpace second.file zid = spaceMeta .slotSpace (second.zones zid) := by
    intro zid configured idle
    rw [flags2 .slotSpace (by decide)] at idle
    rw [slots2 .slotSpace (by decide) zid (inFile configured), kept1 .slotSpace zid configured idle,
      values2.space]
  have space2 : ∀ zid, (spaceMeta .slotSpace (second.zones zid)).Sound := by
    intro zid
    rw [values2.space, values1.space]
    exact coherent.space .slotSpace zid
  obtain ⟨sound3, values3, slots3, zones3, logs3, _⟩ :=
    checkPointUndoSpace_spec space2 sound2 kept2 thirdDone
  refine ⟨sound3, values1.trans (values2.trans values3), fun zid configured => ?_,
    fun type zid configured => ?_⟩
  · rw [zones3 zid (inFile configured), zones2 zid (inFile configured), zones1 zid configured]
  · cases type with
    | logSpace =>
      rw [logs3 .logSpace (by decide) zid (inFile configured), logs2 zid configured, values1.space,
        spaces1 .logSpace zid (inFile configured)]
    | slotSpace =>
      rw [slots3 zid configured, values2.space, values1.space,
        slots2 .slotSpace (by decide) zid (inFile configured), spaces1 .slotSpace zid (inFile configured)]

theorem foldl_update (restored : Nat → Option ZoneControl → Option ZoneControl) (zones : Zones)
    (count zid : Nat) :
    (List.range count).foldl (fun zones zid => Function.update zones zid (restored zid (zones zid))) zones
      zid = if zid < count then restored zid (zones zid) else zones zid := by
  induction count with
  | zero => rfl
  | succ count ih =>
    rw [List.range_succ, List.foldl_append, List.foldl_cons, List.foldl_nil]
    by_cases same : zid = count
    · subst same
      rw [Function.update_self, ih, if_neg (Nat.lt_irrefl _), if_pos (Nat.lt_succ_self _)]
    · rw [Function.update_of_ne same, ih]
      congr 1
      exact propext ⟨Nat.lt_succ_of_lt, fun below => by omega⟩

theorem zoneMeta_restoredZone {info : ZoneMeta} (sound : info.Sound) :
    zoneMeta (restoredZone info none) = info ∧ ∀ type, spaceMeta type (restoredZone info none) = {} := by
  unfold restoredZone
  split
  · exact ⟨recoveryZone_sound sound, fun type => by cases type <;> rfl⟩
  · rename_i unused
    exact ⟨(sound.fresh (not_not.mp unused)).symm, fun _ => rfl⟩

theorem spaceMeta_restoredSpace (type : UndoSpaceType) {info : SpaceMeta} (sound : info.Sound)
    (zone : Option ZoneControl) :
    spaceMeta type (restoredSpace type info zone) = info ∧
      (∀ other ≠ type, spaceMeta other (restoredSpace type info zone) = spaceMeta other zone) ∧
      zoneMeta (restoredSpace type info zone) = zoneMeta zone := by
  unfold restoredSpace
  split
  · rename_i unused
    obtain ⟨empty, rfl⟩ := unused
    exact ⟨(sound empty).symm, fun _ _ => rfl, rfl⟩
  · refine ⟨by cases type <;> rfl, fun other different => ?_, ?_⟩
    · cases zone <;> cases type <;> cases other <;> first | rfl | exact absurd rfl different
    · cases zone <;> cases type <;> rfl

theorem restored_clean (info : ZoneMeta) (log slot : SpaceMeta) (zid : Nat)
    (zones : Zones) (zone_eq : zones zid =
      restoredSpace .slotSpace slot (restoredSpace .logSpace log (restoredZone info none))) :
    zoneDirty zones zid = false ∧ ∀ type, spaceDirty type zones zid = false := by
  rw [zoneDirty, zone_eq]
  simp only [spaceDirty, zone_eq]
  unfold restoredZone restoredSpace
  constructor
  · split <;> split <;> split <;> rfl
  · intro type
    cases type <;> split <;> split <;> split <;> rfl

/-- What a restart brings into memory. -/
structure Recovered (file : MetaFile) (zones : Zones) : Prop where
  zone : ∀ zid < persistZoneCount, zoneMeta (zones zid) = zoneEntry file zid
  space : ∀ type, ∀ zid < persistZoneCount, spaceMeta type (zones zid) = spaceEntry type file zid
  rest : ∀ zid, persistZoneCount ≤ zid → zones zid = none
  zoneClean : ∀ zid, zoneDirty zones zid = false
  spaceClean : ∀ type zid, spaceDirty type zones zid = false

theorem recovery_spec {file : MetaFile} (sound : file.Sound) :
    ∃ zones, recoveryUndoSystemMeta file = some zones ∧ Recovered file zones := by
  have values : ∀ zid, (((List.range persistZoneCount).foldl (fun zones zid => Function.update zones zid
      (restoredSpace .slotSpace (spaceEntry .slotSpace file zid) (zones zid)))
      ((List.range persistZoneCount).foldl (fun zones zid => Function.update zones zid
        (restoredSpace .logSpace (spaceEntry .logSpace file zid) (zones zid)))
        ((List.range persistZoneCount).foldl (fun zones zid => Function.update zones zid
          (restoredZone (zoneEntry file zid) (zones zid))) fun _ => none))) zid) =
      if zid < persistZoneCount then
        restoredSpace .slotSpace (spaceEntry .slotSpace file zid)
          (restoredSpace .logSpace (spaceEntry .logSpace file zid) (restoredZone (zoneEntry file zid) none))
      else none := by
    intro zid
    rw [foldl_update fun zid zone => restoredSpace .slotSpace (spaceEntry .slotSpace file zid) zone,
      foldl_update fun zid zone => restoredSpace .logSpace (spaceEntry .logSpace file zid) zone,
      foldl_update fun zid zone => restoredZone (zoneEntry file zid) zone]
    split <;> rfl
  have ran : ∃ zones, recoveryUndoSystemMeta file = some zones ∧ ∀ zid, zones zid =
      if zid < persistZoneCount then
        restoredSpace .slotSpace (spaceEntry .slotSpace file zid)
          (restoredSpace .logSpace (spaceEntry .logSpace file zid) (restoredZone (zoneEntry file zid) none))
      else none := by
    refine ⟨_, ?_, values⟩
    simp only [recoveryUndoSystemMeta, recoveryUndoZone, recoveryUndoSpace,
      MetaSection.recover_spec _ sound.zoneReadable, MetaSection.recover_spec _ (sound.spaceReadable _),
      Option.bind_eq_bind, Option.bind_some, spaceEntry, zoneEntry]
  obtain ⟨zones, recovered, each⟩ := ran
  have inside : ∀ zid < persistZoneCount, zones zid =
      restoredSpace .slotSpace (spaceEntry .slotSpace file zid)
        (restoredSpace .logSpace (spaceEntry .logSpace file zid)
          (restoredZone (zoneEntry file zid) none)) := fun zid below => by rw [each, if_pos below]
  have outside : ∀ zid, persistZoneCount ≤ zid → zones zid = none :=
    fun zid past => by rw [each, if_neg (Nat.not_lt.mpr past)]
  refine ⟨zones, recovered, fun zid below => ?_, fun type zid below => ?_, outside, fun zid => ?_,
    fun type zid => ?_⟩
  · rw [inside zid below, (spaceMeta_restoredSpace .slotSpace (sound.space _ zid below) _).2.2,
      (spaceMeta_restoredSpace .logSpace (sound.space _ zid below) _).2.2,
      (zoneMeta_restoredZone (sound.zone zid below)).1]
  · rw [inside zid below]
    cases type with
    | logSpace =>
      rw [(spaceMeta_restoredSpace .slotSpace (sound.space _ zid below) _).2.1 .logSpace (by decide),
        (spaceMeta_restoredSpace .logSpace (sound.space _ zid below) _).1]
    | slotSpace => exact (spaceMeta_restoredSpace .slotSpace (sound.space _ zid below) _).1
  · rcases Nat.lt_or_ge zid persistZoneCount with below | past
    · exact (restored_clean _ _ _ zid zones (inside zid below)).1
    · rw [zoneDirty, outside zid past]
      rfl
  · rcases Nat.lt_or_ge zid persistZoneCount with below | past
    · exact (restored_clean _ _ _ zid zones (inside zid below)).2 type
    · rw [spaceDirty, outside zid past]
      rfl

/-- From a coherent state the round trip works exactly when the unreached spaces are in the file. -/
theorem restores_iff (coherent : Coherent nodeCount system) :
    Restores nodeCount system ↔ TailKept nodeCount system := by
  have done := checkPoint_spec coherent
  obtain ⟨zones, recovered, values⟩ := recovery_spec done.file
  have inFile : ∀ {zid}, zid < zoneCountPerLevels nodeCount → zid < persistZoneCount :=
    fun below => Nat.lt_of_lt_of_le below (zoneCountPerLevels_le nodeCount)
  constructor
  · rintro ⟨again, same, restored⟩ type zid late configured
    obtain rfl : zones = again := Option.some.inj (recovered.symm.trans same)
    have own := (restored zid configured).2 type
    rw [values.space type zid (inFile configured), done.space type zid configured,
      if_neg (Nat.not_lt.mpr late)] at own
    exact own
  · intro kept
    refine ⟨zones, recovered, fun zid configured => ⟨?_, fun type => ?_⟩⟩
    · rw [values.zone zid (inFile configured), done.zone zid configured]
    · rw [values.space type zid (inFile configured), done.space type zid configured]
      split
      · rfl
      · rename_i late
        exact kept type zid (Nat.not_lt.mp late) configured

end OpenGauss.Undo
