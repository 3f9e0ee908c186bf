import OpenGauss.Lib.Run
import OpenGauss.Undo.MetaRecovery

/-! The undo spaces of all zones and the counter of their blocks, `knl_uundospace.cpp`. -/

namespace OpenGauss.Undo

open Lib

/-- A space in memory. `headExrto` is the head of the recycler where a standby is read in real time. -/
structure CountedSpace extends SpaceMeta where
  headExrto : Nat := 0
  dirty : Bool := false
deriving DecidableEq, Repr

structure SpaceSystem where
  zones : Nat → Option (UndoSpaceType → CountedSpace)
  undoTotalSize : UInt32
  undoMetaSize : UInt32

def undoZoneCount : Nat := 1048576

def segBlocks : UndoSpaceType → Nat
  | .logSpace => 128
  | .slotSpace => 4

def segSize (type : UndoSpaceType) : Nat := blcksz * segBlocks type

/-- How often a loop that goes on by `unit` runs from `start` to `stop`. -/
def roundsTo (unit start stop : Nat) : Nat := (stop - start + (unit - 1)) / unit

/-- How a call to `ExtendUndoLog` goes outside of the space. `smgrextendFails` is asked for a block of each
new segment. -/
structure ExtendCall where
  offset : Nat
  inRecovery : Bool
  undoSpaceLimitSize : Int32
  smgrextendFails : Nat → Bool

namespace SpaceSystem

def space (system : SpaceSystem) (zid : Nat) (type : UndoSpaceType) : CountedSpace :=
  match system.zones zid with
  | some zone => zone type
  | none => {}

def setSpace (system : SpaceSystem) (zid : Nat) (type : UndoSpaceType) (space : CountedSpace) :
    SpaceSystem :=
  let zone := (system.zones zid).getD fun _ => {}
  { system with zones := Function.update system.zones zid (some (Function.update zone type space)) }

def getUndoZone (system : SpaceSystem) (zid : Nat) : SpaceSystem :=
  { system with zones := Function.update system.zones zid (some ((system.zones zid).getD fun _ => {})) }

/-- An error is raised before the segment is counted. -/
def refuses (system : SpaceSystem) (call : ExtendCall) (undoTotalSize : UInt32) (tail : Nat) : Bool :=
  !call.inRecovery && call.undoSpaceLimitSize ≤ undoTotalSize.toInt32 + system.undoMetaSize.toInt32 ||
    call.smgrextendFails (tail / blcksz + 1)

/-- The loop of `ExtendUndoLog`: the counter, and whether it came to its end. -/
def extendSegments (system : SpaceSystem) (type : UndoSpaceType) (call : ExtendCall) :
    Nat → Nat → UInt32 → UInt32 × Bool
  | 0, _, undoTotalSize => (undoTotalSize, true)
  | rounds + 1, tail, undoTotalSize =>
    if tail < call.offset then
      if system.refuses call undoTotalSize tail then (undoTotalSize, false)
      else system.extendSegments type call rounds (tail + segSize type)
        (undoTotalSize + UInt32.ofNat (segBlocks type))
    else (undoTotalSize, true)

def extendUndoLog (system : SpaceSystem) (zid : Nat) (type : UndoSpaceType) (call : ExtendCall) :
    SpaceSystem :=
  let space := system.space zid type
  let (undoTotalSize, done) := system.extendSegments type call
    (roundsTo (segSize type) space.tail call.offset) space.tail system.undoTotalSize
  let counted := { system with undoTotalSize }
  if done then counted.setSpace zid type { space with tail := call.offset } else counted

def unlinkSegments (type : UndoSpaceType) (offset : Nat) : Nat → Nat → UInt32 → UInt32
  | 0, _, undoTotalSize => undoTotalSize
  | rounds + 1, head, undoTotalSize =>
    if head < offset then
      unlinkSegments type offset rounds (head + segSize type)
        (if undoTotalSize < UInt32.ofNat (segBlocks type) then 0
        else undoTotalSize - UInt32.ofNat (segBlocks type))
    else undoTotalSize

/-- The head is set also where the head of the recycler has just been set instead. -/
def unlinkUndoLog (system : SpaceSystem) (zid : Nat) (type : UndoSpaceType) (offset : Nat)
    (isRecoveryInProgress : Bool) : SpaceSystem :=
  let space := system.space zid type
  let (head, moved) : Nat × CountedSpace :=
    if isRecoveryInProgress then (space.headExrto, { space with headExrto := offset })
    else (space.head, { space with head := offset })
  let system := system.setSpace zid type { moved with head := offset }
  { system with
    undoTotalSize := unlinkSegments type offset (roundsTo (segSize type) head offset) head
      system.undoTotalSize }

/-- What `smgrexists` answers for the segment that a block is in. -/
abbrev SmgrExists := Nat → UndoSpaceType → Nat → Bool

def createSegments (type : UndoSpaceType) (smgrexists : Nat → Bool) (tail : Nat) :
    Nat → Nat → UInt32 → UInt32
  | 0, _, undoTotalSize => undoTotalSize
  | rounds + 1, offset, undoTotalSize =>
    if offset < tail then
      createSegments type smgrexists tail rounds (offset + segSize type)
        (if smgrexists (offset / blcksz + 1) then undoTotalSize
        else undoTotalSize + UInt32.ofNat (segBlocks type))
    else undoTotalSize

def createNonExistsUndoFile (system : SpaceSystem) (smgrexists : SmgrExists) (zid : Nat)
    (type : UndoSpaceType) : SpaceSystem :=
  let space := system.space zid type
  if space.head = space.tail then system
  else { system with
    undoTotalSize := createSegments type (smgrexists zid type) space.tail
      (roundsTo (segSize type) space.head space.tail) space.head system.undoTotalSize }

def used (space : UndoSpace) : UInt32 :=
  if space.tail < space.head then 0 else UInt32.ofNat ((space.tail - space.head) / blcksz)

def restoreSpace (type : UndoSpaceType) (smgrexists : SmgrExists) (zid : Nat) (words : List Nat)
    (system : SpaceSystem) : SpaceSystem :=
  let info := SpaceMeta.ofWords words
  if info.tail = 0 ∧ system.zones zid = none then system
  else
    let system := system.setSpace zid type { info with headExrto := info.head, dirty := false }
    let system := system.createNonExistsUndoFile smgrexists zid type
    { system with undoTotalSize := system.undoTotalSize + used (system.space zid type).toUndoSpace }

def recoveryUndoSpace (type : UndoSpaceType) (smgrexists : SmgrExists) (file : MetaFile)
    (system : SpaceSystem) : Option SpaceSystem :=
  let spaceMetaSize := metaPageCount undoSpaceCountPerPage * undoMetaPageSize / blcksz
  (spaceSection type).recover (restoreSpace type smgrexists) file
    { system with undoMetaSize := system.undoMetaSize + UInt32.ofNat spaceMetaSize }

/-- `RecoveryUndoZone`, of which only the zones that it makes and the spaces that it empties matter
here. -/
def recoveryUndoZone (file : MetaFile) (system : SpaceSystem) : Option SpaceSystem :=
  let zoneMetaSize := metaPageCount undoZoneCountPerPage * undoMetaPageSize / blcksz
  zoneSection.recover (fun zid words system =>
      if (ZoneMeta.ofWords words).insertURecPtr ≠ blockHeaderSize then system.getUndoZone zid else system)
    file
    { system with
      undoMetaSize := system.undoMetaSize + UInt32.ofNat zoneMetaSize
      zones := fun zid =>
        if persistZoneCount ≤ zid then (system.zones zid).map fun _ _ => {} else system.zones zid }

/-- `none` where an error is raised: the server does not start. -/
def recoveryUndoSystemMeta (smgrexists : SmgrExists) (file : MetaFile) (system : SpaceSystem) :
    Option SpaceSystem := do
  let system ← recoveryUndoZone file { system with undoTotalSize := 0, undoMetaSize := 0 }
  let system ← recoveryUndoSpace .logSpace smgrexists file system
  recoveryUndoSpace .slotSpace smgrexists file system

/-- Recovery is done by a new process, or by one that has zones already. -/
inductive Event where
  | getUndoZone (zid : Nat)
  | extend (zid : Nat) (type : UndoSpaceType) (call : ExtendCall)
  | unlink (zid : Nat) (type : UndoSpaceType) (offset : Nat) (isRecoveryInProgress : Bool)
  | recover (newProcess : Bool) (smgrexists : SmgrExists) (file : MetaFile)

def initial : SpaceSystem := ⟨fun _ => none, 0, 0⟩

/-- Nothing is extended or unlinked in a zone that there is not. -/
def step (system : SpaceSystem) : Event → SpaceSystem
  | .getUndoZone zid => if zid < undoZoneCount then system.getUndoZone zid else system
  | .extend zid type call => if system.zones zid = none then system else system.extendUndoLog zid type call
  | .unlink zid type offset isRecoveryInProgress =>
    if system.zones zid = none then system else system.unlinkUndoLog zid type offset isRecoveryInProgress
  | .recover newProcess smgrexists file =>
    (recoveryUndoSystemMeta smgrexists file
      (if newProcess then { system with zones := fun _ => none } else system)).getD system

def blocks (space : UndoSpace) : Nat := (space.tail - space.head) / blcksz

def total (system : SpaceSystem) : Nat :=
  ∑ zid ∈ Finset.range undoZoneCount,
    (blocks (system.space zid .logSpace).toUndoSpace + blocks (system.space zid .slotSpace).toUndoSpace)

structure Sound (system : SpaceSystem) : Prop where
  counted : system.undoTotalSize.toNat = system.total
  ordered : ∀ zid type, (system.space zid type).head ≤ (system.space zid type).tail

/-- Heads do not decrease, and stay where they are when a standby unlinks. -/
structure StepSound (before : SpaceSystem) (event : Event) (after : SpaceSystem) : Prop where
  heads : ∀ zid type, (before.space zid type).head ≤ (after.space zid type).head
  standby : ∀ zid type offset, event = .unlink zid type offset true →
    ∀ zid type, (after.space zid type).head = (before.space zid type).head

/-- A space ends where segments do. -/
structure Aligned (type : UndoSpaceType) (space : UndoSpace) : Prop where
  ordered : space.head ≤ space.tail
  head : segSize type ∣ space.head
  tail : segSize type ∣ space.tail

structure Inv (system : SpaceSystem) : Prop where
  counted : system.undoTotalSize.toNat = system.total
  aligned : ∀ zid type, Aligned type (system.space zid type).toUndoSpace
  inside : ∀ zid, system.zones zid ≠ none → zid < undoZoneCount

theorem Inv.sound {system : SpaceSystem} (inv : system.Inv) : system.Sound :=
  ⟨inv.counted, fun zid type => (inv.aligned zid type).ordered⟩

theorem space_setSpace (system : SpaceSystem) (zid : Nat) (type : UndoSpaceType) (space : CountedSpace)
    (other : Nat) (kind : UndoSpaceType) :
    (system.setSpace zid type space).space other kind =
      if other = zid ∧ kind = type then space else system.space other kind := by
  unfold setSpace SpaceSystem.space
  by_cases same : other = zid
  · subst same
    by_cases also : kind = type
    · subst also
      simp
    · cases found : system.zones other <;> simp [also]
  · simp [same]

theorem space_undoMetaSize (system : SpaceSystem) (undoMetaSize : UInt32) :
    { system with undoMetaSize }.space = system.space := rfl

theorem space_getUndoZone (system : SpaceSystem) (zid : Nat) : (system.getUndoZone zid).space =
    system.space := by
  funext other kind
  unfold getUndoZone SpaceSystem.space
  by_cases same : other = zid
  · subst same
    cases found : system.zones other <;> simp
  · simp [same]

/-- A space that changes changes the blocks of all spaces by its own. -/
theorem total_setSpace (system : SpaceSystem) {zid : Nat} (inside : zid < undoZoneCount) (type : UndoSpaceType)
    (space : CountedSpace) :
    (system.setSpace zid type space).total + blocks (system.space zid type).toUndoSpace =
      system.total + blocks space.toUndoSpace := by
  have member := Finset.mem_range.mpr inside
  unfold total
  rw [← Finset.add_sum_erase _ _ member, ← Finset.add_sum_erase (a := zid) (f := fun zid =>
    blocks (system.space zid .logSpace).toUndoSpace + blocks (system.space zid .slotSpace).toUndoSpace) _
    member]
  have others : ∀ other ∈ (Finset.range undoZoneCount).erase zid,
      blocks ((system.setSpace zid type space).space other .logSpace).toUndoSpace +
        blocks ((system.setSpace zid type space).space other .slotSpace).toUndoSpace =
      blocks (system.space other .logSpace).toUndoSpace +
        blocks (system.space other .slotSpace).toUndoSpace := by
    intro other held
    have different := Finset.ne_of_mem_erase held
    simp only [space_setSpace, different, false_and, if_false]
  rw [Finset.sum_congr rfl others]
  cases type
  · simp only [space_setSpace, reduceCtorEq, and_false, and_true, if_true, if_false]
    omega
  · simp only [space_setSpace, reduceCtorEq, and_false, and_true, if_true, if_false]
    omega

theorem blocks_le_total (system : SpaceSystem) {zid : Nat} (inside : zid < undoZoneCount)
    (type : UndoSpaceType) : blocks (system.space zid type).toUndoSpace ≤ system.total := by
  have part := Finset.single_le_sum (f := fun zid =>
    blocks (system.space zid .logSpace).toUndoSpace + blocks (system.space zid .slotSpace).toUndoSpace)
    (fun _ _ => Nat.zero_le _) (Finset.mem_range.mpr inside)
  cases type
  · exact (Nat.le_add_right _ _).trans part
  · exact (Nat.le_add_left _ _).trans part

variable (type : UndoSpaceType) (call : ExtendCall)

theorem segSize_pos : 0 < segSize type := by
  cases type <;> decide

theorem segBlocks_lt : segBlocks type < 2 ^ 32 := by
  cases type <;> decide

theorem roundsTo_mul (start count : Nat) :
    roundsTo (segSize type) start (start + count * segSize type) = count := by
  have positive := segSize_pos type
  rw [roundsTo, Nat.add_sub_cancel_left, Nat.add_comm, Nat.add_mul_div_right _ _ positive,
    Nat.div_eq_of_lt (by omega), Nat.zero_add]

theorem blocks_mul (head count : Nat) :
    blocks ⟨head, head + count * segSize type⟩ = count * segBlocks type := by
  rw [blocks, Nat.add_sub_cancel_left, segSize, Nat.mul_left_comm]
  exact Nat.mul_div_cancel_left _ (by decide)

/-- Two ends of segments are whole segments apart. -/
theorem exists_segments {type : UndoSpaceType} {start stop : Nat} (ordered : start ≤ stop)
    (first : segSize type ∣ start) (last : segSize type ∣ stop) :
    ∃ count, stop = start + count * segSize type := by
  obtain ⟨count, apart⟩ := Nat.dvd_sub last first
  exact ⟨count, by rw [Nat.mul_comm, ← apart]; omega⟩

variable {system : SpaceSystem}

theorem extendSegments_all {count tail : Nat} {total : UInt32}
    (stop : call.offset = tail + count * segSize type)
    (made : ∀ done < count, system.refuses call (total + UInt32.ofNat (done * segBlocks type))
      (tail + done * segSize type) = false) :
    system.extendSegments type call count tail total =
      (total + UInt32.ofNat (count * segBlocks type), true) := by
  induction count generalizing tail total with
  | zero =>
    rw [extendSegments, Nat.zero_mul]
    simp
  | succ count hyp =>
    have positive := segSize_pos type
    have first := made 0 (Nat.succ_pos count)
    rw [Nat.zero_mul, Nat.zero_mul, Nat.add_zero, show total + UInt32.ofNat 0 = total by simp] at first
    rw [Nat.succ_mul] at stop
    have further := @hyp (tail + segSize type) (total + UInt32.ofNat (segBlocks type))
      (by omega) fun done below => by
        have later := made (done + 1) (Nat.succ_lt_succ below)
        rw [Nat.succ_mul, Nat.succ_mul, Nat.add_comm (done * segBlocks type), UInt32.ofNat_add,
          ← UInt32.add_assoc, Nat.add_comm (done * segSize type), ← Nat.add_assoc] at later
        exact later
    rw [extendSegments, if_pos (by omega), first, further, Nat.succ_mul, Nat.add_comm (count * _),
      UInt32.ofNat_add, ← UInt32.add_assoc]
    rfl

theorem extendSegments_refused {rounds tail : Nat} {total : UInt32} (below : tail < call.offset)
    (nonzero : rounds ≠ 0) (refused : system.refuses call total tail = true) :
    system.extendSegments type call rounds tail total = (total, false) := by
  obtain ⟨rounds, rfl⟩ := Nat.exists_eq_add_one_of_ne_zero nonzero
  rw [extendSegments, if_pos below, refused]
  rfl

theorem extendUndoLog_failed {zid : Nat} {type : UndoSpaceType} {call : ExtendCall} {undoTotalSize : UInt32}
    (failed : system.extendSegments type call
      (roundsTo (segSize type) (system.space zid type).tail call.offset) (system.space zid type).tail
      system.undoTotalSize = (undoTotalSize, false)) :
    system.extendUndoLog zid type call = { system with undoTotalSize } := by
  rw [extendUndoLog, failed]
  rfl

theorem unlinkSegments_eq {count : Nat} (head : Nat) {total : UInt32}
    (held : count * segBlocks type ≤ total.toNat) :
    (unlinkSegments type (head + count * segSize type) count head total).toNat =
      total.toNat - count * segBlocks type := by
  induction count generalizing head total with
  | zero => rw [unlinkSegments, Nat.zero_mul, Nat.sub_zero]
  | succ count hyp =>
    have positive := segSize_pos type
    have width : (UInt32.ofNat (segBlocks type)).toNat = segBlocks type := by
      rw [UInt32.toNat_ofNat', Nat.mod_eq_of_lt (segBlocks_lt type)]
    rw [Nat.succ_mul] at held
    rw [Nat.succ_mul count (segSize type), Nat.succ_mul count (segBlocks type)]
    have enough : ¬ total < UInt32.ofNat (segBlocks type) := by
      rw [UInt32.lt_iff_toNat_lt, width]
      omega
    have less : (total - UInt32.ofNat (segBlocks type)).toNat = total.toNat - segBlocks type := by
      rw [UInt32.toNat_sub_of_le _ _ (UInt32.not_lt.mp enough), width]
    rw [unlinkSegments, if_pos (by omega), if_neg enough, Nat.add_comm (count * segSize type),
      ← Nat.add_assoc, hyp _ (by rw [less]; omega), less]
    omega

theorem createSegments_all {smgrexists : Nat → Bool} {tail rounds offset : Nat} {total : UInt32}
    (there : ∀ segment, offset + segment * segSize type < tail →
      smgrexists ((offset + segment * segSize type) / blcksz + 1) = true) :
    createSegments type smgrexists tail rounds offset total = total := by
  induction rounds generalizing offset with
  | zero => rfl
  | succ rounds hyp =>
    rw [createSegments]
    split_ifs with below held
    · refine hyp fun segment inside => ?_
      have later := there (segment + 1)
      rw [Nat.succ_mul, Nat.add_comm (segment * _), ← Nat.add_assoc] at later
      exact later inside
    · have first := there 0
      rw [Nat.zero_mul, Nat.add_zero] at first
      exact absurd (first below) held
    · rfl

/-- A zone that there is may change one of its spaces and the counter together. -/
theorem Inv.setSpace (inv : system.Inv) {zid : Nat} (held : system.zones zid ≠ none) {type : UndoSpaceType}
    {space : CountedSpace} (aligned : Aligned type space.toUndoSpace) {undoTotalSize : UInt32}
    (counted : undoTotalSize.toNat + blocks (system.space zid type).toUndoSpace =
      system.undoTotalSize.toNat + blocks space.toUndoSpace) :
    Inv { system.setSpace zid type space with undoTotalSize } := by
  have changed := total_setSpace system (inv.inside zid held) type space
  have before := inv.counted
  refine ⟨?_, fun other kind => ?_, fun other there => ?_⟩
  · change undoTotalSize.toNat = (system.setSpace zid type space).total
    omega
  · change Aligned kind ((system.setSpace zid type space).space other kind).toUndoSpace
    rw [space_setSpace]
    split_ifs with same
    · rw [same.2]
      exact aligned
    · exact inv.aligned other kind
  · by_cases same : other = zid
    · rw [same]
      exact inv.inside zid held
    · refine inv.inside other fun missing => there ?_
      exact (Function.update_of_ne same _ _).trans missing

/-- What is asked of a call to `ExtendUndoLog`: it does not fail between two segments. -/
structure Extends (system : SpaceSystem) (zid : Nat) (type : UndoSpaceType) (call : ExtendCall) : Prop where
  aligned : segSize type ∣ call.offset
  onward : (system.space zid type).tail ≤ call.offset
  whole : system.refuses call system.undoTotalSize (system.space zid type).tail = true ∨
    ∀ done < (call.offset - (system.space zid type).tail) / segSize type,
      system.refuses call (system.undoTotalSize + UInt32.ofNat (done * segBlocks type))
        ((system.space zid type).tail + done * segSize type) = false
  fits : system.undoTotalSize.toNat + blocks ⟨(system.space zid type).tail, call.offset⟩ < 2 ^ 32

/-- What is asked of a call to `UnlinkUndoLog`: on a standby both heads are there already. -/
structure Unlinks (system : SpaceSystem) (zid : Nat) (type : UndoSpaceType) (offset : Nat)
    (isRecoveryInProgress : Bool) : Prop where
  aligned : segSize type ∣ offset
  onward : (system.space zid type).head ≤ offset
  within : offset ≤ (system.space zid type).tail
  standby : isRecoveryInProgress = true →
    offset = (system.space zid type).head ∧ offset ≤ (system.space zid type).headExrto

theorem extendUndoLog_spec (inv : system.Inv) {zid : Nat} {type : UndoSpaceType} {call : ExtendCall}
    (allowed : system.Extends zid type call) :
    system.extendUndoLog zid type call = system ∨ system.extendUndoLog zid type call =
        { system.setSpace zid type { system.space zid type with tail := call.offset } with
          undoTotalSize := system.undoTotalSize +
            UInt32.ofNat (blocks ⟨(system.space zid type).tail, call.offset⟩) } := by
  obtain ⟨count, stop⟩ := exists_segments allowed.onward (inv.aligned zid type).tail allowed.aligned
  have rounds := roundsTo_mul type (system.space zid type).tail count
  have width := blocks_mul type (system.space zid type).tail count
  have between : (call.offset - (system.space zid type).tail) / segSize type = count := by
    rw [stop, Nat.add_sub_cancel_left, Nat.mul_div_cancel _ (segSize_pos type)]
  rw [← stop] at rounds width
  rw [width]
  have all (made : ∀ done < count, system.refuses call
      (system.undoTotalSize + UInt32.ofNat (done * segBlocks type))
      ((system.space zid type).tail + done * segSize type) = false) :
      system.extendUndoLog zid type call =
        { system.setSpace zid type { system.space zid type with tail := call.offset } with
          undoTotalSize := system.undoTotalSize + UInt32.ofNat (count * segBlocks type) } := by
    rw [extendUndoLog, rounds, extendSegments_all type call stop made]
    rfl
  rcases allowed.whole with refused | made
  · by_cases zero : count = 0
    · exact .inr (all fun done below => absurd below (by omega))
    · left
      have positive := Nat.mul_pos (Nat.pos_of_ne_zero zero) (segSize_pos type)
      rw [extendUndoLog, rounds, extendSegments_refused type call (by omega) zero refused]
      rfl
  · rw [between] at made
    exact .inr (all made)

theorem Inv.extend (inv : system.Inv) {zid : Nat} (held : system.zones zid ≠ none) {type : UndoSpaceType}
    {call : ExtendCall} (allowed : system.Extends zid type call) :
    (system.extendUndoLog zid type call).Inv ∧
      ∀ other kind, ((system.extendUndoLog zid type call).space other kind).head =
        (system.space other kind).head := by
  rcases extendUndoLog_spec inv allowed with same | changed
  · rw [same]
    exact ⟨inv, fun _ _ => rfl⟩
  · have old := inv.aligned zid type
    have onward := allowed.onward
    have fits := allowed.fits
    have parts : blocks ⟨(system.space zid type).head, call.offset⟩ =
        blocks (system.space zid type).toUndoSpace + blocks ⟨(system.space zid type).tail, call.offset⟩ := by
      obtain ⟨count, stop⟩ := exists_segments old.ordered old.head old.tail
      obtain ⟨more, further⟩ := exists_segments onward old.tail allowed.aligned
      have first := blocks_mul type (system.space zid type).head count
      have second := blocks_mul type (system.space zid type).tail more
      have whole := blocks_mul type (system.space zid type).head (count + more)
      rw [← stop] at first
      rw [← further] at second
      rw [Nat.add_mul, ← Nat.add_assoc, ← stop, ← further, Nat.add_mul] at whole
      change _ = blocks ⟨(system.space zid type).head, (system.space zid type).tail⟩ + _
      rw [first, second, whole]
    have aligned : Aligned type ⟨(system.space zid type).head, call.offset⟩ :=
      ⟨old.ordered.trans onward, old.head, allowed.aligned⟩
    constructor
    · rw [changed]
      refine inv.setSpace held aligned ?_
      change _ = _ + blocks ⟨(system.space zid type).head, call.offset⟩
      rw [parts, UInt32.toNat_add, UInt32.toNat_ofNat', Nat.add_mod_mod, Nat.mod_eq_of_lt fits]
      omega
    · intro other kind
      rw [changed]
      change ((system.setSpace zid type _).space other kind).head = _
      rw [space_setSpace]
      split_ifs with same
      · rw [same.1, same.2]
      · rfl

/-- The heads after an unlink; a standby does not move them. -/
theorem Inv.unlink (inv : system.Inv) {zid : Nat} (held : system.zones zid ≠ none) {type : UndoSpaceType}
    {offset : Nat} {isRecoveryInProgress : Bool}
      (allowed : system.Unlinks zid type offset isRecoveryInProgress) :
    (system.unlinkUndoLog zid type offset isRecoveryInProgress).Inv ∧
      ∀ other kind, ((system.unlinkUndoLog zid type offset isRecoveryInProgress).space other kind).head =
        if other = zid ∧ kind = type then offset else (system.space other kind).head := by
  have old := inv.aligned zid type
  have aligned : Aligned type ⟨offset, (system.space zid type).tail⟩ :=
      ⟨allowed.within, allowed.aligned, old.tail⟩
  have heads (moved : CountedSpace) (head : moved.head = offset) (other : Nat) (kind : UndoSpaceType) :
      ((system.setSpace zid type moved).space other kind).head =
        if other = zid ∧ kind = type then offset else (system.space other kind).head := by
    rw [space_setSpace, ← head]
    exact apply_ite (fun space : CountedSpace => space.head) _ _ _
  cases isRecoveryInProgress with
  | true =>
    obtain ⟨there, ahead⟩ := allowed.standby rfl
    have absent : roundsTo (segSize type) (system.space zid type).headExrto offset = 0 := by
      rw [roundsTo, Nat.sub_eq_zero_of_le ahead, Nat.zero_add]
      exact Nat.div_eq_of_lt (Nat.sub_lt (segSize_pos type) Nat.one_pos)
    have result : system.unlinkUndoLog zid type offset true =
        { system.setSpace zid type { system.space zid type with head := offset, headExrto := offset } with
          undoTotalSize := system.undoTotalSize } := by
      simp only [unlinkUndoLog, if_true, absent]
      rfl
    rw [result]
    refine ⟨inv.setSpace held aligned ?_, heads _ rfl⟩
    change _ = _ + blocks ⟨offset, (system.space zid type).tail⟩
    rw [there]
  | false =>
    obtain ⟨count, stop⟩ := exists_segments allowed.onward old.head allowed.aligned
    obtain ⟨more, further⟩ := exists_segments allowed.within allowed.aligned old.tail
    have rounds := roundsTo_mul type (system.space zid type).head count
    rw [← stop] at rounds
    have rest := blocks_mul type offset more
    rw [← further] at rest
    have whole := blocks_mul type (system.space zid type).head (count + more)
    rw [Nat.add_mul, ← Nat.add_assoc, ← stop, ← further, Nat.add_mul] at whole
    have enough : count * segBlocks type ≤ system.undoTotalSize.toNat := by
      have part := blocks_le_total system (inv.inside zid held) type
      have counted := inv.counted
      change blocks ⟨(system.space zid type).head, (system.space zid type).tail⟩ ≤ _ at part
      omega
    have less := unlinkSegments_eq type (system.space zid type).head enough
    rw [← stop] at less
    have result : system.unlinkUndoLog zid type offset false =
        { system.setSpace zid type { system.space zid type with head := offset } with
          undoTotalSize := unlinkSegments type offset count (system.space zid type).head
            system.undoTotalSize } := by
      simp only [unlinkUndoLog, Bool.false_eq_true, if_false, rounds]
      rfl
    rw [result]
    refine ⟨inv.setSpace held aligned ?_, heads _ rfl⟩
    change _ + blocks ⟨(system.space zid type).head, (system.space zid type).tail⟩ =
      _ + blocks ⟨offset, (system.space zid type).tail⟩
    rw [less, rest, whole]
    omega

def recorded (file : MetaFile) (type : UndoSpaceType) (zid : Nat) : SpaceMeta :=
  SpaceMeta.ofWords ((spaceSection type).entry file zid)

/-- What is asked of recovery: every recorded segment has its file, and no head is behind. -/
structure Recovers (system : SpaceSystem) (smgrexists : SmgrExists) (file : MetaFile) : Prop where
  zones : zoneSection.Readable file
  spaces : ∀ type, (spaceSection type).Readable file
  aligned : ∀ type, ∀ zid < persistZoneCount, Aligned type (recorded file type zid).toUndoSpace
  files : ∀ type, ∀ zid < persistZoneCount, ∀ segment,
    (recorded file type zid).head + segment * segSize type < (recorded file type zid).tail →
      smgrexists zid type (((recorded file type zid).head + segment * segSize type) / blcksz + 1) = true
  onward : ∀ type, ∀ zid < persistZoneCount, (system.space zid type).head ≤ (recorded file type zid).head
  volatile : ∀ type zid, persistZoneCount ≤ zid → (system.space zid type).head = 0
  fits : ∑ zid ∈ Finset.range persistZoneCount, (blocks (recorded file .logSpace zid).toUndoSpace +
    blocks (recorded file .slotSpace zid).toUndoSpace) < 2 ^ 32

/-- The records of the first `count` zones are restored. -/
structure Restored (type : UndoSpaceType) (info : Nat → SpaceMeta) (count : Nat)
    (before after : SpaceSystem) : Prop where
  counted : after.undoTotalSize = before.undoTotalSize +
    UInt32.ofNat (∑ zid ∈ Finset.range count, blocks (info zid).toUndoSpace)
  spaces : ∀ zid kind, (after.space zid kind).toUndoSpace =
    if zid < count ∧ kind = type then (info zid).toUndoSpace else (before.space zid kind).toUndoSpace
  zones : ∀ zid, after.zones zid ≠ none → before.zones zid ≠ none ∨ zid < count

theorem restoreSpace_spec (system : SpaceSystem) (type : UndoSpaceType) {smgrexists : SmgrExists}
    {zid : Nat} {words : List Nat}
    (ordered : (SpaceMeta.ofWords words).head ≤ (SpaceMeta.ofWords words).tail)
    (files : ∀ segment,
      (SpaceMeta.ofWords words).head + segment * segSize type < (SpaceMeta.ofWords words).tail →
        smgrexists zid type (((SpaceMeta.ofWords words).head + segment * segSize type) / blcksz + 1) = true) :
    (restoreSpace type smgrexists zid words system).undoTotalSize = system.undoTotalSize +
        UInt32.ofNat (blocks (SpaceMeta.ofWords words).toUndoSpace) ∧
      (∀ other kind, ((restoreSpace type smgrexists zid words system).space other kind).toUndoSpace =
        if other = zid ∧ kind = type then (SpaceMeta.ofWords words).toUndoSpace
        else (system.space other kind).toUndoSpace) ∧
      ∀ other, (restoreSpace type smgrexists zid words system).zones other ≠ none →
        system.zones other ≠ none ∨ other = zid := by
  unfold restoreSpace
  generalize SpaceMeta.ofWords words = info at *
  by_cases skipped : info.tail = 0 ∧ system.zones zid = none
  · rw [if_pos skipped]
    obtain ⟨empty, missing⟩ := skipped
    have start : info.toUndoSpace = ⟨0, 0⟩ := by
      change UndoSpace.mk info.head info.tail = _
      rw [empty, Nat.le_zero.mp (ordered.trans_eq empty)]
    refine ⟨?_, fun other kind => ?_, fun other there => .inl there⟩
    · rw [start]
      exact (UInt32.add_zero _).symm
    · split_ifs with same
      · rw [same.1, start, SpaceSystem.space, missing]
      · rfl
  · rw [if_neg skipped]
    obtain ⟨restored, made⟩ : ∃ restored, restored =
      system.setSpace zid type { info with headExrto := info.head, dirty := false } := ⟨_, rfl⟩
    have own : restored.space zid type = { info with headExrto := info.head, dirty := false } := by
      rw [made, space_setSpace, if_pos ⟨rfl, rfl⟩]
    have created : restored.createNonExistsUndoFile smgrexists zid type = restored := by
      unfold createNonExistsUndoFile
      simp only [own, createSegments_all type files, ite_self]
    simp only [← made, created, own]
    refine ⟨?_, fun other kind => ?_, fun other there => ?_⟩
    · rw [used, if_neg (Nat.not_lt.mpr ordered), made]
      rfl
    · change (restored.space other kind).toUndoSpace = _
      rw [made, space_setSpace]
      split_ifs <;> rfl
    · by_cases same : other = zid
      · exact .inr same
      · left
        rw [made] at there
        exact fun missing => there ((Function.update_of_ne same _ _).trans missing)

theorem restored_foldl (system : SpaceSystem) (type : UndoSpaceType) {smgrexists : SmgrExists} {file : MetaFile}
    (ordered : ∀ zid < persistZoneCount, (recorded file type zid).head ≤ (recorded file type zid).tail)
    (files : ∀ zid < persistZoneCount, ∀ segment,
      (recorded file type zid).head + segment * segSize type < (recorded file type zid).tail →
        smgrexists zid type (((recorded file type zid).head + segment * segSize type) / blcksz + 1) = true)
    {count : Nat} (within : count ≤ persistZoneCount) :
    Restored type (recorded file type) count system ((List.range count).foldl (fun system zid =>
        restoreSpace type smgrexists zid ((spaceSection type).entry file zid) system) system) := by
  induction count with
  | zero =>
    refine ⟨(UInt32.add_zero _).symm, fun zid kind => ?_, fun zid there => .inl there⟩
    rw [if_neg fun inside => Nat.not_lt_zero zid inside.1]
    rfl
  | succ count hyp =>
    have before := hyp (Nat.le_of_succ_le within)
    rw [List.range_succ, List.foldl_append]
    obtain ⟨counted, spaces, zones⟩ := restoreSpace_spec ((List.range count).foldl (fun system zid =>
        restoreSpace type smgrexists zid ((spaceSection type).entry file zid) system) system)
      type (ordered count within) (files count within)
    refine ⟨?_, fun zid kind => ?_, fun zid there => ?_⟩
    · refine counted.trans ?_
      rw [before.counted, Finset.sum_range_succ, UInt32.ofNat_add, UInt32.add_assoc]
      rfl
    · refine (spaces zid kind).trans ?_
      rw [before.spaces]
      by_cases same : zid = count
      · subst same
        by_cases also : kind = type
        · simp [also, recorded]
        · simp [also]
      · have reach : zid < count + 1 ↔ zid < count := by omega
        simp only [same, false_and, if_false, reach]
    · rcases zones zid there with old | same
      · exact (before.zones zid old).imp_right Nat.lt_succ_of_lt
      · exact .inr (same ▸ Nat.lt_succ_self count)

theorem recoveryUndoZone_spec (system : SpaceSystem) {file : MetaFile} (readable : zoneSection.Readable file) :
    ∃ zoned, recoveryUndoZone file system = some zoned ∧ zoned.undoTotalSize = system.undoTotalSize ∧
      (∀ zid type, persistZoneCount ≤ zid → zoned.space zid type = {}) ∧
      ∀ zid, zoned.zones zid ≠ none → system.zones zid ≠ none ∨ zid < persistZoneCount := by
  unfold recoveryUndoZone
  rw [MetaSection.recover_spec _ readable]
  refine ⟨_, rfl, ?_⟩
  obtain ⟨start, begun⟩ : ∃ start : SpaceSystem, start =
      { system with
        undoMetaSize := system.undoMetaSize +
          UInt32.ofNat (metaPageCount undoZoneCountPerPage * undoMetaPageSize / blcksz)
        zones := fun zid =>
          if persistZoneCount ≤ zid then (system.zones zid).map fun _ _ => {} else system.zones zid } :=
    ⟨_, rfl⟩
  have empty (zid : Nat) (type : UndoSpaceType) (volatile : persistZoneCount ≤ zid) :
      start.space zid type = {} := by
    rw [begun, SpaceSystem.space]
    simp only [if_pos volatile]
    cases system.zones zid <;> rfl
  have zones (zid : Nat) (there : start.zones zid ≠ none) : system.zones zid ≠ none := by
    intro missing
    apply there
    rw [begun]
    simp only [missing, Option.map_none, ite_self]
  have folded (count : Nat) (within : count ≤ persistZoneCount) :
      ∃ zoned, (List.range count).foldl (fun system zid =>
        if (ZoneMeta.ofWords (zoneSection.entry file zid)).insertURecPtr ≠ blockHeaderSize then
          system.getUndoZone zid else system) start = zoned ∧
        zoned.undoTotalSize = system.undoTotalSize ∧ zoned.space = start.space ∧
        ∀ zid, zoned.zones zid ≠ none → system.zones zid ≠ none ∨ zid < persistZoneCount := by
    induction count with
    | zero => exact ⟨start, rfl, by rw [begun], rfl, fun zid there => .inl (zones zid there)⟩
    | succ count hyp =>
      obtain ⟨zoned, folded, counted, spaces, made⟩ := hyp (Nat.le_of_succ_le within)
      refine ⟨_, rfl, ?_⟩
      rw [List.range_succ, List.foldl_append, folded, List.foldl_cons, List.foldl_nil]
      split_ifs
      · refine ⟨counted, (space_getUndoZone zoned count).trans spaces, fun zid there => ?_⟩
        by_cases same : zid = count
        · exact .inr (by omega)
        · exact made zid fun missing => there ((Function.update_of_ne same _ _).trans missing)
      · exact ⟨counted, spaces, made⟩
  obtain ⟨zoned, result, counted, spaces, made⟩ := folded persistZoneCount le_rfl
  rw [← begun, result]
  exact ⟨counted, fun zid type volatile => by rw [spaces, empty zid type volatile], made⟩

theorem recoveryUndoSpace_spec (system : SpaceSystem) (type : UndoSpaceType) {before : SpaceSystem}
    {smgrexists : SmgrExists} {file : MetaFile} (allowed : before.Recovers smgrexists file) :
    ∃ after, recoveryUndoSpace type smgrexists file system = some after ∧
      Restored type (recorded file type) persistZoneCount system after := by
  unfold recoveryUndoSpace
  rw [MetaSection.recover_spec _ (allowed.spaces type)]
  obtain ⟨start, begun⟩ : ∃ start : SpaceSystem, start =
      { system with
        undoMetaSize := system.undoMetaSize +
          UInt32.ofNat (metaPageCount undoSpaceCountPerPage * undoMetaPageSize / blcksz) } := ⟨_, rfl⟩
  have restored := restored_foldl start type
    (fun zid inside => (allowed.aligned type zid inside).ordered) (allowed.files type) (Nat.le_refl _)
  have counted : start.undoTotalSize = system.undoTotalSize := by rw [begun]
  have spaces : start.space = system.space := by rw [begun, space_undoMetaSize]
  have zones : start.zones = system.zones := by rw [begun]
  rw [← begun]
  refine ⟨_, rfl, ?_⟩
  generalize List.foldl _ start (List.range persistZoneCount) = after at restored ⊢
  refine ⟨?_, ?_, ?_⟩
  · rw [← counted]
    exact restored.counted
  · rw [← spaces]
    exact restored.spaces
  · rw [← zones]
    exact restored.zones

theorem recoveryUndoSystemMeta_spec {smgrexists : SmgrExists} {file : MetaFile}
    (allowed : system.Recovers smgrexists file) (start : SpaceSystem)
    (inside : ∀ zid, start.zones zid ≠ none → zid < undoZoneCount) :
    ∃ after, recoveryUndoSystemMeta smgrexists file start = some after ∧ after.Inv ∧
      ∀ zid type, (after.space zid type).toUndoSpace =
        if zid < persistZoneCount then (recorded file type zid).toUndoSpace else {} := by
  obtain ⟨zoned, zones, cleared, empty, made⟩ :=
    recoveryUndoZone_spec { start with undoTotalSize := 0, undoMetaSize := 0 } allowed.zones
  obtain ⟨logs, recovered, log⟩ := recoveryUndoSpace_spec zoned .logSpace allowed
  obtain ⟨after, result, slot⟩ := recoveryUndoSpace_spec logs .slotSpace allowed
  have spaces (zid : Nat) (type : UndoSpaceType) : (after.space zid type).toUndoSpace =
      if zid < persistZoneCount then (recorded file type zid).toUndoSpace else {} := by
    rw [slot.spaces, log.spaces]
    by_cases persistent : zid < persistZoneCount
    · cases type <;> simp [persistent]
    · simp only [persistent, false_and, if_false]
      rw [empty zid type (Nat.not_lt.mp persistent)]
  refine ⟨after, ?_, ⟨?_, fun zid type => ?_, fun zid there => ?_⟩, spaces⟩
  · rw [recoveryUndoSystemMeta, zones, Option.bind_eq_bind, Option.bind_some, recovered,
      Option.bind_some, result]
  · have sum : after.total = ∑ zid ∈ Finset.range persistZoneCount,
        (blocks (recorded file .logSpace zid).toUndoSpace +
          blocks (recorded file .slotSpace zid).toUndoSpace) := by
      have fewer : persistZoneCount ≤ undoZoneCount := by decide
      rw [total, ← Finset.sum_subset (Finset.range_subset_range.mpr fewer)]
      · refine Finset.sum_congr rfl fun zid member => ?_
        rw [spaces, spaces, if_pos (Finset.mem_range.mp member), if_pos (Finset.mem_range.mp member)]
      · intro zid _ beyond
        rw [spaces, spaces, if_neg (mt Finset.mem_range.mpr beyond), if_neg (mt Finset.mem_range.mpr beyond)]
        rfl
    rw [slot.counted, log.counted, cleared, sum]
    change ((0 : UInt32) + _ + _).toNat = _
    rw [UInt32.zero_add, ← UInt32.ofNat_add, ← Finset.sum_add_distrib, UInt32.toNat_ofNat',
      Nat.mod_eq_of_lt allowed.fits]
  · rw [spaces]
    split_ifs with persistent
    · exact allowed.aligned type zid persistent
    · exact ⟨le_rfl, dvd_zero _, dvd_zero _⟩
  · have fewer : persistZoneCount ≤ undoZoneCount := by decide
    rcases slot.zones zid there with there | below
    · rcases log.zones zid there with there | below
      · rcases made zid there with there | below
        · exact inside zid there
        · exact below.trans_le fewer
      · exact below.trans_le fewer
    · exact below.trans_le fewer

/-- What is asked of an event. -/
def Allowed (system : SpaceSystem) : Event → Prop
  | .getUndoZone _ => True
  | .extend zid type call => system.zones zid ≠ none → system.Extends zid type call
  | .unlink zid type offset isRecoveryInProgress =>
    system.zones zid ≠ none → system.Unlinks zid type offset isRecoveryInProgress
  | .recover _ smgrexists file => system.Recovers smgrexists file

theorem Inv.step (inv : system.Inv) {event : Event} (allowed : system.Allowed event) :
    (step system event).Inv ∧ StepSound system event (step system event) := by
  cases event with
  | getUndoZone zid =>
    simp only [SpaceSystem.step]
    split_ifs with inside
    · have spaces := space_getUndoZone system zid
      refine ⟨⟨?_, fun other kind => ?_, fun other there => ?_⟩, fun other kind => ?_, fun _ _ _ same => ?_⟩
      · rw [total, spaces]
        exact inv.counted
      · rw [spaces]
        exact inv.aligned other kind
      · by_cases same : other = zid
        · rwa [same]
        · exact inv.inside other fun missing => there ((Function.update_of_ne same _ _).trans missing)
      · rw [spaces]
      · cases same
    · exact ⟨inv, fun _ _ => le_rfl, fun _ _ _ _ _ _ => rfl⟩
  | extend zid type call =>
    simp only [SpaceSystem.step]
    split_ifs with missing
    · exact ⟨inv, fun _ _ => le_rfl, fun _ _ _ _ _ _ => rfl⟩
    · obtain ⟨kept, heads⟩ := inv.extend missing (allowed missing)
      exact ⟨kept, fun other kind => (heads other kind).ge, fun _ _ _ same => by cases same⟩
  | unlink zid type offset isRecoveryInProgress =>
    simp only [SpaceSystem.step]
    split_ifs with missing
    · exact ⟨inv, fun _ _ => le_rfl, fun _ _ _ _ _ _ => rfl⟩
    · obtain ⟨kept, heads⟩ := inv.unlink missing (allowed missing)
      refine ⟨kept, fun other kind => ?_, fun _ _ _ same other kind => ?_⟩
      · rw [heads]
        split_ifs with own
        · rw [own.1, own.2]
          exact (allowed missing).onward
        · exact le_rfl
      · cases same
        rw [heads]
        split_ifs with own
        · rw [own.1, own.2]
          exact ((allowed missing).standby rfl).1
        · rfl
  | recover newProcess smgrexists file =>
    obtain ⟨after, result, kept, spaces⟩ := recoveryUndoSystemMeta_spec allowed
      (if newProcess then { system with zones := fun _ => none } else system) fun zid there => by
        cases newProcess
        · exact inv.inside zid there
        · exact absurd rfl there
    have reached : SpaceSystem.step system (.recover newProcess smgrexists file) = after := by
      rw [SpaceSystem.step, result]
      rfl
    rw [reached]
    refine ⟨kept, fun zid type => ?_, fun _ _ _ same => by cases same⟩
    have head := congrArg UndoSpace.head (spaces zid type)
    rw [head]
    split_ifs with persistent
    · exact allowed.onward type zid persistent
    · exact (allowed.volatile type zid (Nat.not_lt.mp persistent)).le

theorem total_of_empty {system : SpaceSystem} (empty : ∀ zid type, system.space zid type = {}) :
    system.total = 0 :=
  Finset.sum_eq_zero fun zid _ => by
    rw [empty, empty]
    rfl

theorem initial_inv : initial.Inv :=
  ⟨(total_of_empty fun _ _ => rfl).symm, fun _ _ => ⟨le_rfl, dvd_zero _, dvd_zero _⟩,
    fun _ there => absurd rfl there⟩

/-- Where no extension fails between two segments, a standby unlinks nothing, and recovery finds every
segment, the counter is exact and heads do not decrease. -/
theorem undoTotalSize_along (events : List Event) (along : Lib.Along step Allowed initial events) :
    (Lib.run step initial events).Sound ∧ ∀ before event after, events = before ++ event :: after →
        StepSound (Lib.run step initial before) event (step (Lib.run step initial before) event) := by
  have kept (events : List Event) (along : Lib.Along step Allowed initial events) :
      (Lib.run step initial events).Inv :=
    Lib.run_invariant_along Inv (fun _ _ allowed inv => (inv.step allowed).1) along initial_inv
  refine ⟨(kept events along).sound, ?_⟩
  rintro before event after rfl
  have first := (Lib.along_append Allowed initial before _).mp along
  exact ((kept before first.1).step first.2.1).2

theorem undoTotalSize_along_segment :
    (Lib.run step initial [.getUndoZone 0, .extend 0 .logSpace ⟨1048576, false, 33554432, fun _ => false⟩,
      .unlink 0 .logSpace 1048576 false]).Sound :=
  (undoTotalSize_along [.getUndoZone 0, .extend 0 .logSpace ⟨1048576, false, 33554432, fun _ => false⟩,
      .unlink 0 .logSpace 1048576 false]
    ⟨trivial, fun _ => ⟨by decide, by decide, .inr (by decide), by decide⟩,
      fun _ => ⟨by decide, by decide, by decide, by rintro ⟨⟩⟩, trivial⟩).1

/-- The second of two segments cannot be made; and a standby unlinks a segment. -/
theorem undoTotalSize_not_sound : (¬ ∀ events : List Event, (Lib.run step initial events).Sound) ∧
      ¬ ∀ (events before : List Event) (event : Event) (after : List Event),
        events = before ++ event :: after →
          StepSound (Lib.run step initial before) event (step (Lib.run step initial before) event) := by
  constructor
  · intro claim
    have sound := claim [.getUndoZone 0,
      .extend 0 .logSpace ⟨2097152, false, 33554432, fun block => block == 129⟩]
    have result : Lib.run step initial [.getUndoZone 0,
        .extend 0 .logSpace ⟨2097152, false, 33554432, fun block => block == 129⟩] =
          { initial.getUndoZone 0 with undoTotalSize := 128 } := by
      have made : step initial (.getUndoZone 0) = initial.getUndoZone 0 := by
        rw [step, if_pos (by decide)]
      have there : (initial.getUndoZone 0).zones 0 ≠ none := nofun
      rw [Lib.run_cons, Lib.run_cons, Lib.run_nil, made, step, if_neg there]
      exact extendUndoLog_failed (by decide)
    rw [result] at sound
    have empty : (SpaceSystem.total { initial.getUndoZone 0 with undoTotalSize := 128 }) = 0 :=
      total_of_empty fun zid type => congrFun (congrFun (space_getUndoZone initial 0) zid) type
    have counted := sound.counted
    rw [empty] at counted
    cases counted
  · intro claim
    have sound := claim _ [.getUndoZone 0, .extend 0 .logSpace ⟨1048576, false, 33554432, fun _ => false⟩]
      (.unlink 0 .logSpace 1048576 true) [] rfl
    have moved := sound.standby 0 .logSpace 1048576 rfl 0 .logSpace
    cases moved

end SpaceSystem

end OpenGauss.Undo
