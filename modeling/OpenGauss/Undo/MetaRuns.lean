import OpenGauss.Undo.MetaRestart

namespace OpenGauss.Undo

open Function (update_of_ne update_self)

open Lib

variable {area : MetaSection} {file : MetaFile} {zid : Nat}

theorem init_before (other : MetaSection) {record : List Nat} (length : record.length = area.width)
    {file made : MetaFile} (start : file.size = area.base * area.pageSize)
    (done : area.init record file = made) (sizes : other.pageSize = area.pageSize)
    (before : other.stop ≤ area.base) :
    (∀ zone < persistZoneCount, other.entry made zone = other.entry file zone) ∧
      (other.Readable file → other.Readable made) := by
  obtain ⟨size, -, -, same⟩ := area.init_spec length start done
  have below : other.stop * other.pageSize ≤ area.base * area.pageSize := by
    rw [sizes]
    exact Nat.mul_le_mul_right _ before
  have longer : file.size ≤ made.size := by
    rw [start, size]
    exact Nat.mul_le_mul_right _ (Nat.le_add_right _ _)
  exact ⟨fun _ inFile => MetaSection.entry_congr
      (fun cell _ high => same cell (Nat.lt_of_lt_of_le high below)) inFile,
    fun readable => readable.of_same longer
      fun cell _ high => same cell (Nat.lt_of_lt_of_le high below)⟩

/-- The file of a new installation holds initial values everywhere. -/
theorem initUndoMeta_spec : initUndoMeta.Sound ∧
    (∀ zid < persistZoneCount, zoneEntry initUndoMeta zid = {}) ∧
    ∀ type, ∀ zid < persistZoneCount, spaceEntry type initUndoMeta zid = {} := by
  generalize emptyFile : ({ words := fun _ => 0, size := 0 } : MetaFile) = empty
  generalize zonesDone : zoneSection.init ({} : ZoneMeta).words empty = zones
  generalize logsDone : (spaceSection .logSpace).init ({} : SpaceMeta).words zones = logs
  generalize slotsDone : (spaceSection .slotSpace).init ({} : SpaceMeta).words logs = slots
  have whole : initUndoMeta = slots := by
    rw [initUndoMeta, emptyFile, zonesDone, logsDone, slotsDone]
  have start1 : empty.size = zoneSection.base * zoneSection.pageSize := by rw [← emptyFile]; rfl
  obtain ⟨size1, zones1, readable1, -⟩ := zoneSection.init_spec rfl start1 zonesDone
  have start2 : zones.size = (spaceSection .logSpace).base * (spaceSection .logSpace).pageSize := by
    rw [size1]
    decide
  obtain ⟨size2, logs2, readable2, -⟩ := (spaceSection .logSpace).init_spec rfl start2 logsDone
  have start3 : logs.size = (spaceSection .slotSpace).base * (spaceSection .slotSpace).pageSize := by
    rw [size2]
    decide
  obtain ⟨size3, slots3, readable3, -⟩ := (spaceSection .slotSpace).init_spec rfl start3 slotsDone
  obtain ⟨zones2, keep2⟩ := init_before zoneSection rfl start2 logsDone rfl (by decide)
  obtain ⟨zones3, keep3⟩ := init_before zoneSection rfl start3 slotsDone rfl (by decide)
  obtain ⟨logs3, keepLogs⟩ :=
    init_before (spaceSection .logSpace) rfl start3 slotsDone rfl (by decide)
  have zoneEntries : ∀ zid < persistZoneCount, zoneEntry initUndoMeta zid = {} := by
    intro zid below
    rw [whole, zoneEntry, zones3 zid below, zones2 zid below, zones1 zid below, ZoneMeta.ofWords_words]
  have spaceEntries : ∀ type, ∀ zid < persistZoneCount, spaceEntry type initUndoMeta zid = {} := by
    intro type zid below
    cases type with
    | logSpace => rw [whole, spaceEntry, logs3 zid below, logs2 zid below, SpaceMeta.ofWords_words]
    | slotSpace => rw [whole, spaceEntry, slots3 zid below, SpaceMeta.ofWords_words]
  refine ⟨⟨?_, fun type => ?_, fun zid below => ?_, fun type zid below => ?_⟩, zoneEntries, spaceEntries⟩
  · rw [whole]
    exact keep3 (keep2 readable1)
  · rw [whole]
    cases type with
    | logSpace => exact keepLogs readable2
    | slotSpace => exact readable3
  · rw [zoneEntries zid below]
    exact zoneMeta_sound_default
  · rw [spaceEntries type zid below]
    exact spaceMeta_sound_default

theorem coherent_unused (nodeCount : Nat) (sound : file.Sound)
    (zones : ∀ zid < persistZoneCount, zoneEntry file zid = {})
    (spaces : ∀ type, ∀ zid < persistZoneCount, spaceEntry type file zid = {}) :
    Coherent nodeCount (MetaSystem.unused file) := by
  have inFile : ∀ {zid}, zid < zoneCountPerLevels nodeCount → zid < persistZoneCount :=
    fun below => Nat.lt_of_lt_of_le below (zoneCountPerLevels_le nodeCount)
  exact ⟨sound, fun _ => zoneMeta_sound_default, fun _ _ => spaceMeta_sound_default,
    fun zid configured _ => zones zid (inFile configured),
    fun type zid configured _ => spaces type zid (inFile configured)⟩

theorem coherent_initial (nodeCount : Nat) : Coherent nodeCount MetaSystem.initial :=
  coherent_unused nodeCount initUndoMeta_spec.1 initUndoMeta_spec.2.1 initUndoMeta_spec.2.2

variable {nodeCount : Nat} {system : MetaSystem}

/-- A change of one zone in memory: what it changed is dirty now. -/
structure Marked (zone next : Option ZoneControl) : Prop where
  zoneSound : (zoneMeta next).Sound
  spaceSound : ∀ type, (spaceMeta type next).Sound
  zoneKept : zoneFlag next = true ∨ (zoneMeta next = zoneMeta zone ∧ zoneFlag next = zoneFlag zone)
  spaceKept : ∀ type, spaceFlag type next = true ∨
    (spaceMeta type next = spaceMeta type zone ∧ spaceFlag type next = spaceFlag type zone)

/-- A flag that was set stays set, so a group that is clean now was clean before. -/
theorem groupDirty_of_update {dirty later : Nat → Bool}
    (stays : ∀ other, dirty other = true → later other = true) (set : area.GroupDirty dirty zid) :
      area.GroupDirty later zid := by
  obtain ⟨other, below, group, flag⟩ := set
  exact ⟨other, below, group, stays other flag⟩

theorem Coherent.update (coherent : Coherent nodeCount system) {next : Option ZoneControl}
    (marked : Marked (system.zones zid) next) :
    Coherent nodeCount { system with zones := Function.update system.zones zid next } := by
  have zoneStays : ∀ other, zoneDirty system.zones other = true →
      zoneDirty (Function.update system.zones zid next) other = true := by
    intro other set
    by_cases same : other = zid
    · subst same
      rw [zoneDirty, update_self]
      rcases marked.zoneKept with flag | kept
      · exact flag
      · exact kept.2.trans set
    · rw [zoneDirty, update_of_ne same]
      exact set
  have spaceStays : ∀ type other, spaceDirty type system.zones other = true →
      spaceDirty type (Function.update system.zones zid next) other = true := by
    intro type other set
    by_cases same : other = zid
    · subst same
      rw [spaceDirty, update_self]
      rcases marked.spaceKept type with flag | kept
      · exact flag
      · exact kept.2.trans set
    · rw [spaceDirty, update_of_ne same]
      exact set
  have inFile : ∀ {zid}, zid < zoneCountPerLevels nodeCount → zid < persistZoneCount :=
    fun below => Nat.lt_of_lt_of_le below (zoneCountPerLevels_le nodeCount)
  refine ⟨coherent.file, fun other => ?_, fun type other => ?_, fun other configured idle => ?_,
    fun type other configured idle => ?_⟩
  · by_cases same : other = zid
    · subst same
      simpa using marked.zoneSound
    · simpa [same] using coherent.zone other
  · by_cases same : other = zid
    · subst same
      simpa using marked.spaceSound type
    · simpa [same] using coherent.space type other
  · dsimp only at idle ⊢
    have before := coherent.zoneKept other configured fun set => idle (groupDirty_of_update zoneStays set)
    by_cases same : other = zid
    · subst same
      have clean : zoneFlag next ≠ true := fun flag =>
        idle ⟨other, inFile configured, rfl, by rw [zoneDirty, update_self, flag]⟩
      rw [update_self, (marked.zoneKept.resolve_left clean).1]
      exact before
    · rw [update_of_ne same]
      exact before
  · dsimp only at idle ⊢
    have before := coherent.spaceKept type other configured
      fun set => idle (groupDirty_of_update (spaceStays type) set)
    by_cases same : other = zid
    · subst same
      have clean : spaceFlag type next ≠ true := fun flag =>
        idle ⟨other, inFile configured, rfl, by rw [spaceDirty, update_self, flag]⟩
      rw [update_self, ((marked.spaceKept type).resolve_left clean).1]
      exact before
    · rw [update_of_ne same]
      exact before

/-- After a checkpoint that met every unreached space in the file, everything is in the file. -/
theorem Coherent.checkPoint (coherent : Coherent nodeCount system) (kept : TailKept nodeCount system) :
    Coherent nodeCount (system.checkPoint nodeCount) := by
  obtain ⟨file, values, zone, space⟩ := checkPoint_spec coherent
  refine ⟨file, fun zid => ?_, fun type zid => ?_, fun zid configured _ => ?_,
    fun type zid configured _ => ?_⟩
  · rw [values.zone]
    exact coherent.zone zid
  · rw [values.space]
    exact coherent.space type zid
  · rw [zone zid configured, values.zone]
  · rw [space type zid configured, values.space]
    split
    · rfl
    · rename_i late
      exact kept type zid (Nat.not_lt.mp late) configured

theorem Coherent.restart (coherent : Coherent nodeCount system) : Coherent nodeCount system.restart := by
  obtain ⟨zones, recovered, values⟩ := recovery_spec coherent.file
  have step : system.restart = { system with zones } := by
    rw [MetaSystem.restart, recovered, Option.map_some, Option.getD_some]
  have inFile : ∀ {zid}, zid < zoneCountPerLevels nodeCount → zid < persistZoneCount :=
    fun below => Nat.lt_of_lt_of_le below (zoneCountPerLevels_le nodeCount)
  rw [step]
  refine ⟨coherent.file, fun zid => ?_, fun type zid => ?_,
    fun zid configured _ => (values.zone zid (inFile configured)).symm,
    fun type zid configured _ => (values.space type zid (inFile configured)).symm⟩
  · rcases Nat.lt_or_ge zid persistZoneCount with below | past
    · rw [values.zone zid below]
      exact coherent.file.zone zid below
    · have absent := congrArg zoneMeta (values.rest zid past)
      exact absent ▸ zoneMeta_sound_default
  · rcases Nat.lt_or_ge zid persistZoneCount with below | past
    · rw [values.space type zid below]
      exact coherent.file.space type zid below
    · have absent := congrArg (spaceMeta type) (values.rest zid past)
      exact absent ▸ spaceMeta_sound_default

/-- Checkpoints are the only steps that need a condition. -/
def MetaSystem.Reached (nodeCount : Nat) (system : MetaSystem) (event : MetaEvent) : Prop :=
  event = .checkPoint → TailKept nodeCount system

theorem Coherent.step {event : MetaEvent} (reached : system.Reached nodeCount event)
    (coherent : Coherent nodeCount system) : Coherent nodeCount (system.step nodeCount event) := by
  cases event with
  | getUndoZone zid =>
    apply coherent.update
    have zone := coherent.zone zid
    have space := fun type => coherent.space type zid
    cases found : system.zones zid with
    | none =>
      exact ⟨zoneMeta_sound_default, fun type => by cases type <;> exact spaceMeta_sound_default,
        Or.inr ⟨rfl, rfl⟩, fun type => by cases type <;> exact Or.inr ⟨rfl, rfl⟩⟩
    | some zone' =>
      rw [found] at zone space
      exact ⟨zone, space, Or.inr ⟨rfl, rfl⟩, fun _ => Or.inr ⟨rfl, rfl⟩⟩
  | changeZone zid next =>
    apply coherent.update
    have space := fun type => coherent.space type zid
    cases found : system.zones zid with
    | none =>
      exact ⟨zoneMeta_sound_default, fun _ => spaceMeta_sound_default, Or.inr ⟨rfl, rfl⟩,
        fun _ => Or.inr ⟨rfl, rfl⟩⟩
    | some zone =>
      rw [found] at space
      exact ⟨next.2, fun type => by cases type <;> first | exact space .logSpace | exact space .slotSpace,
        Or.inl rfl,
        fun type => by cases type <;> exact Or.inr ⟨rfl, rfl⟩⟩
  | changeSpace type zid next =>
    apply coherent.update
    have zone := coherent.zone zid
    have space := fun type => coherent.space type zid
    cases found : system.zones zid with
    | none =>
      exact ⟨zoneMeta_sound_default, fun _ => spaceMeta_sound_default, Or.inr ⟨rfl, rfl⟩,
        fun _ => Or.inr ⟨rfl, rfl⟩⟩
    | some zone' =>
      rw [found] at zone space
      refine ⟨by cases type <;> exact zone, fun other => ?_, ?_, fun other => ?_⟩
      · cases type <;> cases other <;> first | exact next.2 | exact space .logSpace | exact space .slotSpace
      · cases type <;> exact Or.inr ⟨rfl, rfl⟩
      · cases type <;> cases other <;> first | exact Or.inl rfl | exact Or.inr ⟨rfl, rfl⟩
  | checkPoint => exact coherent.checkPoint (reached rfl)
  | restart => exact coherent.restart

/-- In every run whose checkpoints all met the unreached spaces in the file, the next checkpoint and
restart give everything back exactly when this one does too. -/
theorem run_restores (nodeCount : Nat) (events : List MetaEvent)
    (reached : Along (MetaSystem.step nodeCount) (MetaSystem.Reached nodeCount) MetaSystem.initial events) :
    Restores nodeCount (run (MetaSystem.step nodeCount) MetaSystem.initial events) ↔
      TailKept nodeCount (run (MetaSystem.step nodeCount) MetaSystem.initial events) :=
  restores_iff (run_invariant_along (Coherent nodeCount) (fun _ _ allowed holds => holds.step allowed)
    reached (coherent_initial nodeCount))

/-- A space that got its first segment. -/
def extendedSpace : { space : SpaceMeta // space.Sound } :=
  ⟨{ tail := undoLogSegmentSize, lsn := 7 }, fun empty => nomatch empty⟩

theorem tailKept_unused (nodeCount : Nat)
    (spaces : ∀ type, ∀ zid < persistZoneCount, spaceEntry type file zid = {}) :
    TailKept nodeCount (MetaSystem.unused file) :=
  fun type zid _ configured => spaces type zid
    (Nat.lt_of_lt_of_le configured (zoneCountPerLevels_le nodeCount))

theorem tailKept_initial (nodeCount : Nat) : TailKept nodeCount MetaSystem.initial :=
  tailKept_unused nodeCount initUndoMeta_spec.2.2

/-- A change of an id the last write reaches does not matter. -/
theorem TailKept.update (kept : TailKept nodeCount system) (reached : zid < firstUnwritten)
    (next : Option ZoneControl) :
    TailKept nodeCount { system with zones := Function.update system.zones zid next } := by
  intro type other late configured
  have different : other ≠ zid := fun same => absurd (same ▸ late) (Nat.not_le.mpr reached)
  dsimp only
  rw [update_of_ne different]
  exact kept type other late configured

theorem TailKept.checkPoint (coherent : Coherent nodeCount system) (kept : TailKept nodeCount system) :
    TailKept nodeCount (system.checkPoint nodeCount) := by
  obtain ⟨-, values, -, space⟩ := checkPoint_spec coherent
  intro type zid late configured
  rw [space type zid configured, if_neg (Nat.not_lt.mpr late), values.space]
  exact kept type zid late configured

theorem run_restores_first : Restores 1 (run (MetaSystem.step 1) MetaSystem.initial
    [.checkPoint, .getUndoZone 0, .changeSpace .logSpace 0 extendedSpace]) := by
  have kept := TailKept.checkPoint (coherent_initial 1) (tailKept_initial 1)
  refine (run_restores 1 [.checkPoint, .getUndoZone 0, .changeSpace .logSpace 0 extendedSpace] ?_).mpr
    ((kept.update (by decide) _).update (by decide) _)
  simp only [Along]
  exact ⟨fun _ => tailKept_initial 1, (by rintro ⟨⟩), (by rintro ⟨⟩), trivial⟩

/-- A space that was extended differs from one that the file holds as never used. -/
theorem extended_not_kept (late : firstUnwritten ≤ zid) (configured : zid < zoneCountPerLevels nodeCount)
    (entry : spaceEntry .logSpace file zid = {}) :
    ¬ TailKept nodeCount (((MetaSystem.unused file).step nodeCount (.getUndoZone zid)).step nodeCount
      (.changeSpace .logSpace zid extendedSpace)) := by
  intro kept
  have same := kept .logSpace zid late configured
  simp only [MetaSystem.step, MetaSystem.unused, update_self, entry, Option.map_some] at same
  exact absurd (congrArg (·.tail) same) (by decide)

/-- The spaces of zone 349455 are the first ones behind the last written page. -/
theorem run_not_restores :
    ¬ ∀ nodeCount events, Restores nodeCount (run (MetaSystem.step nodeCount) MetaSystem.initial events) := by
  intro all
  have created : Coherent 1 (MetaSystem.initial.step 1 (.getUndoZone 349455)) :=
    (coherent_initial 1).step fun other => nomatch other
  have extended : Coherent 1 ((MetaSystem.initial.step 1 (.getUndoZone 349455)).step 1
      (.changeSpace .logSpace 349455 extendedSpace)) := created.step fun other => nomatch other
  have kept := (restores_iff extended).mp
    (all 1 [.getUndoZone 349455, .changeSpace .logSpace 349455 extendedSpace])
  exact extended_not_kept (by decide) (by decide)
    (initUndoMeta_spec.2.2 .logSpace 349455 (by decide)) kept

end OpenGauss.Undo
