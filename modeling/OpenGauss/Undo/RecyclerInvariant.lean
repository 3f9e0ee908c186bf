import OpenGauss.Undo.ZoneSlots

namespace OpenGauss.Undo

/-- Every slot of a transaction below `bound` is settled. -/
def SettledBelow (xacts : Xacts) (zone : UndoZone) (bound : Nat) : Prop :=
  ∀ number < zone.allocNo, (zone.slot number).xactId < bound → Settled xacts (zone.slot number)

/-- Every slot that was not recycled belongs to a transaction that is `allowed`. -/
def LiveXids (zone : UndoZone) (allowed : Nat → Prop) : Prop :=
  ∀ number, zone.recycleNo ≤ number → number < zone.allocNo → allowed (zone.slot number).xactId

/-- A transaction id that no running and no later transaction is below. -/
def BelowRunning (xacts : Xacts) (bound : Nat) : Prop :=
  bound ≤ xacts.nextXid ∧ ∀ xid, xacts.Active xid → bound ≤ xid

/-- What the two published transaction ids promise. -/
structure GlobalsInvariant (xacts : Xacts) (globals : UndoGlobals) (zones : Nat → UndoZone) : Prop where
  frozen : ∀ zid, SettledBelow xacts (zones zid) globals.globalFrozenXid
  recycle : ∀ zid, LiveXids (zones zid) (globals.globalRecycleXid ≤ ·)
  frozen_running : BelowRunning xacts globals.globalFrozenXid
  recycle_running : BelowRunning xacts globals.globalRecycleXid

/-- A round that has been through the zones below `idx`. -/
structure RoundInvariant (xacts : Xacts) (globals : UndoGlobals) (zones : Nat → UndoZone)
    (round : RecycleRound) (idx : Nat) : Prop where
  valid : round.recycleXmin ≠ 0
  xmin_le : round.recycleXmin ≤ round.oldestXmin
  running : BelowRunning xacts round.oldestXmin
  frozen_ge : globals.globalFrozenXid ≤ round.oldestFrozenXidInUndo
  frozen_le : round.oldestFrozenXidInUndo ≤ round.oldestXmin
  maxXids : ∀ xid ∈ round.recycleMaxXIDs, xid ≠ 0
  frozen : ∀ zid < idx, SettledBelow xacts (zones zid) round.oldestFrozenXidInUndo
  recycle : ∀ zid < idx, LiveXids (zones zid) fun xid =>
    round.recycleXmin ≤ xid ∨ ∃ recycled ∈ round.recycleMaxXIDs, recycled ≤ xid

/-- `AdvanceFrozenXid` stands at slot `current` and will stop at slot `last`. -/
structure FrozenScanInvariant (xacts : Xacts) (zone : UndoZone) (oldestXmin : Nat)
    (scan : FrozenScan) (current last : Nat) : Prop where
  currentSlotPtr : scan.currentSlotPtr = slotPtr current
  allocatePtr : scan.allocatePtr = slotPtr last
  recycle_le : zone.recycleNo ≤ current
  current_le : current ≤ last
  last_le : last ≤ zone.allocNo
  settled : ∀ number < current, Settled xacts (zone.slot number)
  later : ∀ number, last ≤ number → number < zone.allocNo → oldestXmin ≤ (zone.slot number).xactId
  frozenXid : scan.frozenXid = oldestXmin
  place : scan.oldestFrozenSlotPtr = 0 ∨ ∃ number ≤ current, scan.oldestFrozenSlotPtr = slotPtr number

structure FrozenXidFound (xacts : Xacts) (globals : UndoGlobals) (zone : UndoZone)
    (oldestXmin frozenXid : Nat) : Prop where
  valid : frozenXid ≠ 0
  frozen_ge : globals.globalFrozenXid ≤ frozenXid
  frozen_le : frozenXid ≤ oldestXmin
  settled : SettledBelow xacts zone frozenXid

/-- `RecycleUndoSpace` has passed the slots before `current` and will stop at slot `last`. -/
structure RecycleScanInvariant (xacts : Xacts) (zone : UndoZone) (oldestXmin : Nat)
    (xids : RecycleXids) (scan : RecycleScan) (current last : Nat) : Prop where
  recyclePtr : scan.recyclePtr = slotPtr current
  allocatePtr : scan.allocatePtr = slotPtr last
  recycle_le : zone.recycleNo ≤ current
  current_le : current ≤ last
  last_le : last ≤ zone.allocNo
  settled : ∀ number < current, Settled xacts (zone.slot number)
  later : ∀ number, last ≤ number → number < zone.allocNo → oldestXmin ≤ (zone.slot number).xactId
  oldest_valid : scan.oldestRecycleXid ≠ 0
  oldest : scan.oldestRecycleXid ≤ xids.frozenXid ∨
    ∃ number < zone.recycleNo, scan.oldestRecycleXid = (zone.slot number).xactId
  /-- Outside of a page everything passed has been given up. -/
  between : scan.pc = .nextPage ∨ scan.pc = .release → current = zone.recycleNo ∧
    scan.oldestEndUndoPtr ≤ zone.forceDiscardURecPtr
  released : scan.pc = .release → scan.endUndoPtr = zone.forceDiscardURecPtr
  /-- A page whose first slot is still to be looked at. -/
  fresh : scan.pc = .inspect → scan.undoRecycled = false → current < last ∧
    scan.bufBlock = scan.recyclePtr / blcksz
  kept : scan.pc = .pageDone → scan.undoRecycled = false →
    LiveXids zone fun xid => xids.recycleXmin ≤ xid ∨ scan.oldestRecycleXid ≤ xid
  opened : scan.pc = .inspect ∨ scan.pc = .pageDone → scan.undoRecycled = false →
    current = zone.recycleNo ∧ scan.startUndoPtr = 0 ∧ scan.oldestEndUndoPtr ≤ zone.forceDiscardURecPtr
  batch : scan.pc = .inspect ∨ scan.pc = .pageDone → scan.undoRecycled = true →
    zone.recycleNo < current ∧ scan.startUndoPtr = zone.startOf zone.recycleNo ∧
      scan.endUndoPtr = zone.stopOf (current - 1) ∧
      scan.recycleXid = (zone.slot (current - 1)).xactId ∧
      scan.oldestEndUndoPtr ≤ scan.endUndoPtr

/-- The whole of what holds while the recycler is in a given state. -/
def RecyclerInvariant (xacts : Xacts) (globals : UndoGlobals) (zones : Nat → UndoZone) : RecyclerState → Prop
  | .idle => True
  | .zoneLoop round idx => RoundInvariant xacts globals zones round idx
  | .advancing round idx scan =>
    RoundInvariant xacts globals zones round idx ∧
      ∃ current last, FrozenScanInvariant xacts (zones idx) round.oldestXmin scan current last
  | .entering round idx frozenXid =>
    RoundInvariant xacts globals zones round idx ∧
      FrozenXidFound xacts globals (zones idx) round.oldestXmin frozenXid
  | .recycling round idx frozenXid scan =>
    RoundInvariant xacts globals zones round idx ∧
      FrozenXidFound xacts globals (zones idx) round.oldestXmin frozenXid ∧
      ∃ current last, RecycleScanInvariant xacts (zones idx) round.oldestXmin
        (round.xids frozenXid) scan current last

section Growth

variable {xacts xacts' : Xacts} {zone zone' : UndoZone} {bound : Nat}

theorem BelowRunning.grow (running : BelowRunning xacts bound) (grows : XactsGrow xacts xacts') :
    BelowRunning xacts' bound := by
  refine ⟨running.1.trans grows.nextXid, ?_⟩
  intro xid active
  rcases grows.active xid active with before | new
  · exact running.2 xid before
  · exact running.1.trans new

theorem ZoneGrows.recycleNo (grows : ZoneGrows xacts xacts' zone zone') :
    zone'.recycleNo = zone.recycleNo := by
  rw [UndoZone.recycleNo, grows.recycle, UndoZone.recycleNo]

variable {allowed : Nat → Prop} {globals : UndoGlobals} {zones zones' : Nat → UndoZone}
  {oldestXmin : Nat} {current last : Nat}

/-- A bound on all slots from some number on is kept by new slots of running transactions. -/
theorem ZoneGrows.later (grows : ZoneGrows xacts xacts' zone zone') {first : Nat}
    (running : ∀ xid, xacts.Active xid → allowed xid)
    (before : ∀ number, first ≤ number → number < zone.allocNo → allowed (zone.slot number).xactId) :
    ∀ number, first ≤ number → number < zone'.allocNo → allowed (zone'.slot number).xactId := by
  intro number above below
  rcases Nat.lt_or_ge number zone.allocNo with old | new
  · rw [grows.xid number old]
    exact before number above old
  · exact running _ (grows.young number new below)

theorem LiveXids.grow (live : LiveXids zone allowed) (grows : ZoneGrows xacts xacts' zone zone')
    (running : ∀ xid, xacts.Active xid → allowed xid) :
    LiveXids zone' allowed := by
  unfold LiveXids
  rw [grows.recycleNo]
  exact grows.later running live

theorem SettledBelow.grow (below : SettledBelow xacts zone bound)
    (grows : ZoneGrows xacts xacts' zone zone') (running : BelowRunning xacts bound) :
    SettledBelow xacts' zone' bound := by
  intro number inside small
  rcases Nat.lt_or_ge number zone.allocNo with old | new
  · rw [grows.xid number old] at small
    exact (grows.settled number old (below number old small)).1
  · exact absurd (running.2 _ (grows.young number new inside)) (Nat.not_le.mpr small)

theorem GlobalsInvariant.grow (inv : GlobalsInvariant xacts globals zones)
    (xactsGrow : XactsGrow xacts xacts') (grows : ∀ zid, ZoneGrows xacts xacts' (zones zid) (zones' zid)) :
    GlobalsInvariant xacts' globals zones' where
  frozen := fun zid => (inv.frozen zid).grow (grows zid) inv.frozen_running
  recycle := fun zid => (inv.recycle zid).grow (grows zid) inv.recycle_running.2
  frozen_running := inv.frozen_running.grow xactsGrow
  recycle_running := inv.recycle_running.grow xactsGrow

theorem BelowRunning.mono {smaller : Nat} (running : BelowRunning xacts bound)
    (le : smaller ≤ bound) : BelowRunning xacts smaller :=
  ⟨le.trans running.1, fun xid active => le.trans (running.2 xid active)⟩

theorem RoundInvariant.grow {round : RecycleRound} {idx : Nat}
    (inv : RoundInvariant xacts globals zones round idx) (xactsGrow : XactsGrow xacts xacts')
    (grows : ∀ zid, ZoneGrows xacts xacts' (zones zid) (zones' zid)) :
    RoundInvariant xacts' globals zones' round idx := by
  refine { inv with running := inv.running.grow xactsGrow, frozen := ?_, recycle := ?_ }
  · intro zid visited
    exact (inv.frozen zid visited).grow (grows zid) (inv.running.mono inv.frozen_le)
  · intro zid visited
    refine (inv.recycle zid visited).grow (grows zid) ?_
    intro xid active
    exact Or.inl (inv.xmin_le.trans (inv.running.2 xid active))

theorem FrozenXidFound.grow {oldestXmin frozenXid : Nat}
    (found : FrozenXidFound xacts globals zone oldestXmin frozenXid)
    (grows : ZoneGrows xacts xacts' zone zone') (running : BelowRunning xacts oldestXmin) :
    FrozenXidFound xacts' globals zone' oldestXmin frozenXid :=
  { found with settled := found.settled.grow grows (running.mono found.frozen_le) }

theorem FrozenScanInvariant.grow {scan : FrozenScan}
    (inv : FrozenScanInvariant xacts zone oldestXmin scan current last)
    (grows : ZoneGrows xacts xacts' zone zone') (running : BelowRunning xacts oldestXmin) :
    FrozenScanInvariant xacts' zone' oldestXmin scan current last := by
  have inside : current ≤ zone.allocNo := inv.current_le.trans inv.last_le
  refine { inv with
    recycle_le := grows.recycleNo.trans_le inv.recycle_le
    last_le := inv.last_le.trans grows.allocate
    settled := ?_
    later := grows.later running.2 inv.later }
  intro number passed
  exact (grows.settled number (passed.trans_le inside) (inv.settled number passed)).1

theorem RecycleScanInvariant.grow {xids : RecycleXids} {scan : RecycleScan}
    (inv : RecycleScanInvariant xacts zone oldestXmin xids scan current last)
    (grows : ZoneGrows xacts xacts' zone zone') (running : BelowRunning xacts oldestXmin)
    (xmin_le : xids.recycleXmin ≤ oldestXmin) :
    RecycleScanInvariant xacts' zone' oldestXmin xids scan current last := by
  have inside : current ≤ zone.allocNo := inv.current_le.trans inv.last_le
  have passed : ∀ number < current, Settled xacts' (zone'.slot number) ∧
      zone'.startOf number = zone.startOf number ∧ zone'.stopOf number = zone.stopOf number :=
    fun number before =>
      grows.settled number (before.trans_le inside) (inv.settled number before)
  refine { inv with
    recycle_le := grows.recycleNo.trans_le inv.recycle_le
    last_le := inv.last_le.trans grows.allocate
    settled := fun number before => (passed number before).1
    later := grows.later running.2 inv.later
    oldest := ?_, between := ?_, released := ?_, kept := ?_, opened := ?_, batch := ?_ }
  · refine inv.oldest.imp id ?_
    rintro ⟨number, recycled, same⟩
    refine ⟨number, by rwa [grows.recycleNo], ?_⟩
    rw [same, grows.xid number (recycled.trans_le (inv.recycle_le.trans inside))]
  · rw [grows.recycleNo, grows.forceDiscard]
    exact inv.between
  · rw [grows.forceDiscard]
    exact inv.released
  · intro pc absent
    refine (inv.kept pc absent).grow grows ?_
    intro xid active
    exact Or.inl (xmin_le.trans (running.2 xid active))
  · rw [grows.recycleNo, grows.forceDiscard]
    exact inv.opened
  · intro pc present
    obtain ⟨before, start, stop, xid, oldest⟩ := inv.batch pc present
    rw [grows.recycleNo, (passed _ before).2.1, (passed (current - 1) (by omega)).2.2,
      grows.xid (current - 1) (by omega)]
    exact ⟨before, start, stop, xid, oldest⟩

theorem RecyclerInvariant.grow {recycler : RecyclerState}
    (inv : RecyclerInvariant xacts globals zones recycler) (xactsGrow : XactsGrow xacts xacts')
    (grows : ∀ zid, ZoneGrows xacts xacts' (zones zid) (zones' zid)) :
    RecyclerInvariant xacts' globals zones' recycler := by
  cases recycler with
  | idle => trivial
  | zoneLoop round idx => exact RoundInvariant.grow inv xactsGrow grows
  | advancing round idx scan =>
    obtain ⟨roundInv, current, last, scanInv⟩ := inv
    exact ⟨roundInv.grow xactsGrow grows, current, last, scanInv.grow (grows idx) roundInv.running⟩
  | entering round idx frozenXid =>
    obtain ⟨roundInv, found⟩ := inv
    exact ⟨roundInv.grow xactsGrow grows, found.grow (grows idx) roundInv.running⟩
  | recycling round idx frozenXid scan =>
    obtain ⟨roundInv, found, current, last, scanInv⟩ := inv
    exact ⟨roundInv.grow xactsGrow grows, found.grow (grows idx) roundInv.running, current, last,
      scanInv.grow (grows idx) roundInv.running roundInv.xmin_le⟩

end Growth

end OpenGauss.Undo
