import OpenGauss.Undo.ZoneBackend

namespace OpenGauss.Undo

variable {xacts xacts' : Xacts} {zone : UndoZone} {context : UndoContext}

/-- The slot of a running transaction is neither recycled nor passed by the freezing scan. -/
theorem SlotXids.live (xids : SlotXids xacts zone) {number : Nat}
    (active : xacts.Active (zone.slot number).xactId) :
    zone.recycleNo ≤ number ∧ zone.frozenNo ≤ number := by
  constructor
  · by_contra recycled
    exact (xids.recycled number (by omega)).not_active active
  · by_contra frozen
    exact (xids.frozen number (by omega)).not_active active

/-- The slot the backend writes to, while its transaction runs. -/
theorem ZoneInvariant.last_slot (inv : ZoneInvariant xacts zone context)
    (active : xacts.Active context.prevXid) :
    0 < zone.allocNo ∧ context.slot = slotPtr (zone.allocNo - 1) ∧
      (zone.slot (zone.allocNo - 1)).xactId = context.prevXid ∧
      zone.recycleNo ≤ zone.allocNo - 1 := by
  have valid : context.prevXid ≠ 0 := by
    have := active.1
    simp only [firstNormalTransactionId] at this
    omega
  obtain ⟨present, place, xid⟩ := inv.backend.current valid
  exact ⟨present, place, xid, (inv.xids.live (by rwa [xid])).1⟩

theorem ZonePointers.startOf_ne_zero (pointers : ZonePointers zone context) {number : Nat}
    (live : zone.recycleNo ≤ number) (closed : number < zone.closedNo context) :
    zone.startOf number ≠ 0 := by
  have := pointers.tiles.low_le_start live closed
  have := pointers.header_le
  simp only [blockHeaderSize] at this
  omega

theorem UndoZone.slot_allocTransactionSlot (zone : UndoZone) (number xid other : Nat) :
    (zone.allocTransactionSlot (slotPtr number) xid).slot other =
      if other = number then (zone.slot number).init xid else zone.slot other := by
  unfold slot allocTransactionSlot
  by_cases same : other = number
  · simp [same]
  · simp [same, slotPtr_inj]

@[simp] theorem UndoZone.allocNo_allocTransactionSlot (zone : UndoZone) (number xid : Nat) :
    (zone.allocTransactionSlot (slotPtr number) xid).allocNo = number + 1 := by
  simp [allocNo, allocTransactionSlot]

/-- The next slot pointer passes the tail only to the first slot of the segment after it. -/
theorem slotPtr_succ_le_tail {number tail : Nat} (below : slotPtr number < tail)
    (segment : tail % undoMetaSegmentSize = 0) :
    slotPtr (number + 1) ≤ tail ∨ slotPtr (number + 1) = tail + blockHeaderSize := by
  simp only [slotPtr, undoMetaSegmentSize, blockHeaderSize] at *
  omega

section NewSlot

variable {pending : PendingUndo}

/-- The zone with a slot for `xid` after its last one. -/
private abbrev grown (zone : UndoZone) (xid : Nat) : UndoZone :=
  zone.allocTransactionSlot (slotPtr zone.allocNo) xid

private theorem slot_grown_old (zone : UndoZone) (xid : Nat) {number : Nat}
    (old : number < zone.allocNo) : (grown zone xid).slot number = zone.slot number := by
  rw [zone.slot_allocTransactionSlot, if_neg (by omega)]

variable (pointers : ZonePointers zone context)
include pointers

private theorem slot_grown_new (xid : Nat) :
    (grown zone xid).slot zone.allocNo = { xactId := xid } := by
  have fresh : zone.slot zone.allocNo = {} := by
    refine pointers.fresh _ ?_
    intro number before
    rw [Ne, slotPtr_inj]
    omega
  rw [zone.slot_allocTransactionSlot, if_pos rfl, fresh]
  rfl

private theorem grown_pointers (phase : context.phase = .metaPrepared pending)
    (room : zone.allocateTSlotPtr < zone.slotSpace.tail)
    {context' : UndoContext} (phase' : context'.phase = .slotAllocated pending) :
    ZonePointers (grown zone pending.xid) context' := by
  have tiles := pointers.tiles
  have ends := pointers.closedEnd_le
  simp only [UndoZone.closedNo, UndoZone.closedEnd, phase] at tiles ends
  have opened : (grown zone pending.xid).startOf zone.allocNo = 0 := by
    rw [UndoZone.startOf, slot_grown_new pointers]
  rw [pointers.allocate] at room
  refine { pointers with
    allocate := ?_, recycle_le := ?_, frozen_le := ?_, fresh := ?_, tiles := ?_
    closedEnd_le := ?_, slotTail := ?_ }
  · rw [zone.allocNo_allocTransactionSlot]
    exact getNextSlotPtr_slotPtr _
  · rw [zone.allocNo_allocTransactionSlot]
    exact Nat.le_succ_of_le pointers.recycle_le
  · rw [zone.allocNo_allocTransactionSlot]
    exact Nat.le_succ_of_le pointers.frozen_le
  · intro position unused
    rw [zone.allocNo_allocTransactionSlot] at unused
    refine (Function.update_of_ne (unused _ (Nat.lt_succ_self _)) _ _).trans ?_
    exact pointers.fresh position fun number before => unused number (by omega)
  · simp only [UndoZone.closedNo, UndoZone.closedEnd, phase', zone.allocNo_allocTransactionSlot,
      Nat.add_sub_cancel, opened, if_true]
    refine tiles.congr ?_
    intro number _ before
    simp only [UndoZone.startOf, UndoZone.stopOf, slot_grown_old zone _ before, and_self]
  · simp only [UndoZone.closedEnd, phase']
    exact ends
  · change getNextSlotPtr (slotPtr zone.allocNo) ≤ _ ∨ getNextSlotPtr (slotPtr zone.allocNo) = _
    rw [getNextSlotPtr_slotPtr]
    exact slotPtr_succ_le_tail room pointers.slotTail_segment

private theorem grown_xids (xids : SlotXids xacts zone)
    {xid : Nat} (active : xacts.Active xid)
    (younger : ∀ pointer, (zone.slots pointer).xactId < xid) : SlotXids xacts (grown zone xid) := by
  have new := slot_grown_new pointers xid
  constructor
  · intro number before
    rw [zone.allocNo_allocTransactionSlot] at before
    rcases Nat.lt_succ_iff_lt_or_eq.mp before with old | rfl
    · rw [slot_grown_old zone _ old]
      exact xids.normal number old
    · rw [new]
      exact active.1
  · intro number before
    rw [zone.allocNo_allocTransactionSlot] at before
    rcases Nat.lt_succ_iff_lt_or_eq.mp before with old | rfl
    · rw [slot_grown_old zone _ old]
      exact xids.begun number old
    · rw [new]
      exact active.2.1
  · intro first second order before
    rw [zone.allocNo_allocTransactionSlot] at before
    rw [slot_grown_old zone _ (show first < zone.allocNo by omega)]
    rcases Nat.lt_succ_iff_lt_or_eq.mp before with old | rfl
    · rw [slot_grown_old zone _ old]
      exact xids.increasing first second order old
    · rw [new]
      exact younger _
  · intro number before finished
    rw [zone.allocNo_allocTransactionSlot] at before
    rcases Nat.lt_succ_iff_lt_or_eq.mp before with old | rfl
    · rw [slot_grown_old zone _ old] at finished ⊢
      exact xids.rolledBack number old finished
    · rw [new] at finished
      cases finished
  · intro number before
    rw [slot_grown_old zone _ (before.trans_le pointers.recycle_le)]
    exact xids.recycled number before
  · intro number before
    rw [slot_grown_old zone _ (before.trans_le pointers.frozen_le)]
    exact xids.frozen number before

private theorem grown_grows {xid : Nat}
    (active : xacts.Active xid) : ZoneGrows xacts xacts zone (grown zone xid) where
  recycle := rfl
  forceDiscard := rfl
  allocate := by
    rw [zone.allocNo_allocTransactionSlot]
    exact Nat.le_succ _
  xid := fun number old => by rw [slot_grown_old zone _ old]
  settled := by
    intro number old settled
    simp only [UndoZone.startOf, UndoZone.stopOf, slot_grown_old zone _ old, and_self, settled]
  young := by
    intro number new before
    rw [zone.allocNo_allocTransactionSlot] at before
    obtain rfl : number = zone.allocNo := by omega
    rwa [slot_grown_new pointers]

end NewSlot

/-- The first half of `UpdateTransactionSlot`: a new slot goes to a transaction younger than all of
the zone's. -/
theorem allocateTransSlot_invariant (inv : ZoneInvariant xacts zone context) {pending : PendingUndo}
    (phase : context.phase = .metaPrepared pending)
    (younger : pending.xid ≠ context.prevXid → ∀ pointer, (zone.slots pointer).xactId < pending.xid) :
    ZoneInvariant xacts (allocateTransSlot zone context pending).1
        (allocateTransSlot zone context pending).2 ∧
      ZoneGrows xacts xacts zone (allocateTransSlot zone context pending).1 := by
  obtain ⟨⟨enough, longer, valid, place⟩, insert⟩ := inv.backend.metaPrepared pending phase
  have active := inv.backend.inFlight pending.xid (by simp [phase, UndoPhase.xid?])
  unfold allocateTransSlot
  split
  · rename_i other
    obtain ⟨pointer, room⟩ := place other
    rw [pointer, inv.pointers.allocate]
    refine ⟨⟨grown_pointers inv.pointers phase room rfl,
      grown_xids inv.pointers inv.xids active (younger other), ?_⟩, grown_grows inv.pointers active⟩
    constructor
    · intro _
      rw [zone.allocNo_allocTransactionSlot, Nat.add_sub_cancel, slot_grown_new inv.pointers]
      exact ⟨Nat.succ_pos _, rfl, rfl⟩
    · exact fun _ => valid
    · intro xid flying
      cases flying
      exact active
    · simp
    · simp
    · rintro _ ⟨⟩
      exact ⟨rfl, longer.trans_eq insert.symm⟩
  · rename_i same
    have same : pending.xid = context.prevXid := not_not.mp same
    obtain ⟨present, -, -, live⟩ := inv.last_slot (same ▸ active)
    have closed := inv.pointers.startOf_ne_zero live (by simp only [UndoZone.closedNo, phase]; omega)
    refine ⟨⟨?_, { inv.xids with }, ?_⟩, ZoneGrows.refl xacts zone⟩
    · have tiles := inv.pointers.tiles
      have ends := inv.pointers.closedEnd_le
      simp only [UndoZone.closedNo, UndoZone.closedEnd, phase] at tiles ends
      refine { inv.pointers with tiles := ?_, closedEnd_le := ends }
      simpa only [UndoZone.closedNo, UndoZone.closedEnd, if_neg closed] using tiles
    · refine { inv.backend with
        inFlight := ?_, allocated := by simp, metaPrepared := by simp, slotAllocated := ?_ }
      · intro xid flying
        cases flying
        exact active
      · rintro _ ⟨⟩
        exact ⟨same.symm, longer.trans_eq insert.symm⟩

section SlotWrite

/-- The zone with one slot rewritten. -/
def UndoZone.setSlot (zone : UndoZone) (pointer : Nat) (slot : TransactionSlot) : UndoZone :=
  { zone with slots := Function.update zone.slots pointer slot }

theorem UndoZone.slot_setSlot (zone : UndoZone) (number other : Nat) (slot : TransactionSlot) :
    (zone.setSlot (slotPtr number) slot).slot other = if other = number then slot else zone.slot other := by
  unfold UndoZone.slot setSlot
  by_cases same : other = number
  · simp [same]
  · simp [same, slotPtr_inj]

variable {number : Nat} {slot : TransactionSlot}

/-- Rewriting a slot without changing its transaction, where the result is as settled as before. -/
theorem SlotXids.setSlot (xids : SlotXids xacts zone) (xid : slot.xactId = (zone.slot number).xactId)
    (settled : Settled xacts (zone.slot number) → Settled xacts slot)
    (rolledBack : slot.rollbackFinish = true → xacts.status slot.xactId = .aborted) :
    SlotXids xacts (zone.setSlot (slotPtr number) slot) := by
  have same : ∀ other, ((zone.setSlot (slotPtr number) slot).slot other).xactId =
      (zone.slot other).xactId := by
    intro other
    rw [zone.slot_setSlot]
    split
    · rename_i here
      rw [xid, here]
    · rfl
  have kept : ∀ other, Settled xacts (zone.slot other) →
      Settled xacts ((zone.setSlot (slotPtr number) slot).slot other) := by
    intro other before
    rw [zone.slot_setSlot]
    split
    · rename_i here
      exact settled (here ▸ before)
    · exact before
  constructor
  · intro other before
    rw [same]
    exact xids.normal other before
  · intro other before
    rw [same]
    exact xids.begun other before
  · intro first second order before
    rw [same, same]
    exact xids.increasing first second order before
  · intro other before finished
    by_cases here : other = number
    · rw [zone.slot_setSlot, if_pos here] at finished ⊢
      exact rolledBack finished
    · rw [zone.slot_setSlot, if_neg here] at finished ⊢
      exact xids.rolledBack other before finished
  · exact fun other before => kept other (xids.recycled other before)
  · exact fun other before => kept other (xids.frozen other before)

theorem ZoneGrows.setSlot (xid : slot.xactId = (zone.slot number).xactId)
    (settled : Settled xacts (zone.slot number) → Settled xacts slot ∧ slot.startUndoPtr =
      (zone.slot number).startUndoPtr ∧ slot.endUndoPtr = (zone.slot number).endUndoPtr) :
    ZoneGrows xacts xacts zone (zone.setSlot (slotPtr number) slot) where
  recycle := rfl
  forceDiscard := rfl
  allocate := le_rfl
  xid := by
    intro other _
    rw [zone.slot_setSlot]
    split
    · rename_i here
      rw [xid, here]
    · rfl
  settled := by
    intro other _ before
    simp only [UndoZone.startOf, UndoZone.stopOf, zone.slot_setSlot]
    split
    · rename_i here
      subst here
      exact settled before
    · exact ⟨before, rfl, rfl⟩
  young := by
    intro other from_end before
    exact absurd before (Nat.not_lt.mpr from_end)

theorem ZonePointers.fresh_setSlot (pointers : ZonePointers zone context) (present : number < zone.allocNo)
    (slot : TransactionSlot) (position : Nat) (unused : ∀ other < zone.allocNo, position ≠ slotPtr other) :
    (zone.setSlot (slotPtr number) slot).slots position = {} :=
  (Function.update_of_ne (unused number present) _ _).trans (pointers.fresh position unused)

end SlotWrite

private theorem updated_tiles (pointers : ZonePointers zone context) {pending : PendingUndo}
    (phase : context.phase = .slotAllocated pending) (pos : 0 < zone.allocNo)
    (live : zone.recycleNo ≤ zone.allocNo - 1) (longer : pending.firstRecord < zone.insertURecPtr)
    {slot : TransactionSlot}
    (start : slot.startUndoPtr = if zone.startOf (zone.allocNo - 1) = 0 then pending.firstRecord
      else zone.startOf (zone.allocNo - 1))
    (stop : slot.endUndoPtr = zone.insertURecPtr) :
    Lib.Tiles (zone.setSlot (slotPtr (zone.allocNo - 1)) slot).startOf
      (zone.setSlot (slotPtr (zone.allocNo - 1)) slot).stopOf zone.recycleNo zone.allocNo
      zone.forceDiscardURecPtr zone.insertURecPtr := by
  have tiles := pointers.tiles
  simp only [UndoZone.closedNo, UndoZone.closedEnd, phase] at tiles
  generalize written : zone.setSlot (slotPtr (zone.allocNo - 1)) slot = zone'
  have before : ∀ number, number ≠ zone.allocNo - 1 →
      zone'.startOf number = zone.startOf number ∧ zone'.stopOf number = zone.stopOf number := by
    intro number other
    simp only [UndoZone.startOf, UndoZone.stopOf, ← written, zone.slot_setSlot, if_neg other, and_self]
  have last : zone'.startOf (zone.allocNo - 1) = slot.startUndoPtr ∧
      zone'.stopOf (zone.allocNo - 1) = zone.insertURecPtr := by
    simp only [UndoZone.startOf, UndoZone.stopOf, ← written, zone.slot_setSlot, if_true, stop, and_self]
  by_cases opened : zone.startOf (zone.allocNo - 1) = 0
  · -- the slot is new: its range is one more tile
    rw [if_pos opened] at tiles start
    have kept := tiles.congr fun number _ inside => before number (by omega)
    have pushed := kept.push (last.1.trans start) (by rw [last.1, start, last.2]; exact longer)
    rwa [Nat.sub_add_cancel pos, last.2] at pushed
  · -- the slot has a range already: its end moves
    rw [if_neg opened] at tiles start
    have inside := tiles.proper _ live (by omega)
    have closes := tiles.closes (by omega)
    have stretched : Lib.Tiles zone.startOf zone'.stopOf zone.recycleNo zone.allocNo
        zone.forceDiscardURecPtr (zone'.stopOf (zone.allocNo - 1)) :=
      tiles.stretch (by omega) (fun number _ => (before number (by omega)).2)
        (by rw [last.2]; omega)
    rw [last.2] at stretched
    refine stretched.congr fun number _ _ => ⟨?_, rfl⟩
    by_cases here : number = zone.allocNo - 1
    · rw [here, last.1, start]
    · exact (before number here).1

section

variable (inv : ZoneInvariant xacts zone context)

include inv

/-- The second half of `UpdateTransactionSlot`: it finds its own slot, and the range of that slot
closes the gap up to the insertion pointer. -/
theorem updateTransactionSlot_invariant
    {pending : PendingUndo} (phase : context.phase = .slotAllocated pending) :
    ∃ result, updateTransactionSlot zone context pending = some result ∧
      ZoneInvariant xacts result.1 result.2 ∧ ZoneGrows xacts xacts zone result.1 := by
  obtain ⟨current, longer⟩ := inv.backend.slotAllocated pending phase
  have active := inv.backend.inFlight pending.xid (by simp [phase, UndoPhase.xid?])
  obtain ⟨present, place, xid, live⟩ := inv.last_slot (current ▸ active)
  have pointers := inv.pointers
  have last : zone.slots context.slot = zone.slot (zone.allocNo - 1) := by rw [place]; rfl
  have own : (zone.slots context.slot).xactId = pending.xid := by rw [last, xid, current]
  refine ⟨_, if_neg (not_not.mpr own), ?_⟩
  rw [place]
  change ZoneInvariant xacts (zone.setSlot _ _) _ ∧ ZoneGrows xacts xacts zone (zone.setSlot _ _)
  generalize written : (zone.slots (slotPtr (zone.allocNo - 1))).update pending.firstRecord
    zone.insertURecPtr = slot
  have slotXid : slot.xactId = (zone.slot (zone.allocNo - 1)).xactId := by rw [← written]; rfl
  have slotFlag : slot.rollbackFinish = (zone.slot (zone.allocNo - 1)).rollbackFinish := by
    rw [← written]; rfl
  have slotStart : slot.startUndoPtr = if zone.startOf (zone.allocNo - 1) = 0 then
      pending.firstRecord else zone.startOf (zone.allocNo - 1) := by
    rw [← written]; rfl
  have slotStop : slot.endUndoPtr = zone.insertURecPtr := by rw [← written]; rfl
  have unsettled : ¬ Settled xacts (zone.slot (zone.allocNo - 1)) := by
    intro settled
    exact settled.not_active (by rwa [xid, current])
  refine ⟨⟨?_, ?_, ?_⟩, ZoneGrows.setSlot slotXid fun settled => absurd settled unsettled⟩
  · refine { pointers with
      fresh := pointers.fresh_setSlot (by omega) slot
      tiles := ?_
      closedEnd_le := le_rfl }
    exact updated_tiles pointers phase present live longer slotStart slotStop
  · refine inv.xids.setSlot slotXid (fun settled => absurd settled unsettled) ?_
    rw [slotFlag, slotXid]
    exact inv.xids.rolledBack _ (by omega)
  · refine { inv.backend with
      current := ?_, inFlight := ?_, allocated := by simp, metaPrepared := by simp
      slotAllocated := by simp }
    · intro _
      refine ⟨present, rfl, ?_⟩
      change ((zone.setSlot _ _).slot (zone.allocNo - 1)).xactId = _
      rw [zone.slot_setSlot, if_pos rfl, slotXid, xid]
    · intro other flying
      cases flying
      exact active

theorem finishUndoMeta_invariant {pending : PendingUndo} (phase : context.phase = .slotUpdated pending) :
    ZoneInvariant xacts zone { context with phase := .ready } := by
  have tiles := inv.pointers.tiles
  have ends := inv.pointers.closedEnd_le
  simp only [UndoZone.closedNo, UndoZone.closedEnd, phase] at tiles ends
  exact ⟨{ inv.pointers with tiles := tiles, closedEnd_le := ends }, inv.xids,
    { inv.backend with
      inFlight := by simp [UndoPhase.xid?]
      allocated := by simp
      metaPrepared := by simp
      slotAllocated := by simp }⟩

/-- Each step of the critical section keeps the invariant and never meets a foreign slot. -/
theorem undoMetaStep_invariant
    (younger : ∀ pending, context.phase = .metaPrepared pending → pending.xid ≠ context.prevXid →
      ∀ pointer, (zone.slots pointer).xactId < pending.xid) :
    ∃ result, undoMetaStep zone context = some result ∧ ZoneInvariant xacts result.1 result.2 ∧
      ZoneGrows xacts xacts zone result.1 := by
  unfold undoMetaStep
  cases phase : context.phase with
  | ready => exact ⟨_, rfl, inv, ZoneGrows.refl xacts zone⟩
  | allocated pending => exact ⟨_, rfl, prepareUndoMeta_invariant inv phase⟩
  | metaPrepared pending =>
    exact ⟨_, rfl, allocateTransSlot_invariant inv phase (younger pending phase)⟩
  | slotAllocated pending => exact updateTransactionSlot_invariant inv phase
  | slotUpdated pending =>
    exact ⟨_, rfl, finishUndoMeta_invariant inv phase, ZoneGrows.refl xacts zone⟩

/-- A backend with no record in flight may change its context as long as it forgets its slot or
keeps it. -/
theorem ZoneInvariant.setContext {context' : UndoContext}
    (tiles : zone.closedNo context' = zone.closedNo context ∧
      zone.closedEnd context' = zone.closedEnd context)
    (ready : context'.phase = .ready)
    (current : context'.prevXid = 0 ∨ context'.prevXid = context.prevXid ∧
      context'.slot = context.slot ∧ context'.slotBufferValid = context.slotBufferValid) :
    ZoneInvariant xacts zone context' := by
  refine ⟨{ inv.pointers with tiles := ?_, closedEnd_le := ?_ }, inv.xids, ?_⟩
  · rw [tiles.1, tiles.2]
    exact inv.pointers.tiles
  · rw [tiles.2]
    exact inv.pointers.closedEnd_le
  · constructor
    · intro valid
      rcases current with absent | ⟨same, slot, -⟩
      · exact absurd absent valid
      · rw [same] at valid ⊢
        rw [slot]
        exact inv.backend.current valid
    · intro valid
      rcases current with absent | ⟨same, -, buffer⟩
      · exact absurd absent valid
      · rw [buffer]
        exact inv.backend.buffer (same ▸ valid)
    all_goals simp [ready, UndoPhase.xid?]

theorem updateRollbackProgress_invariant {number : Nat}
    (present : number < zone.allocNo) (aborted : xacts.status (zone.slot number).xactId = .aborted) :
    ZoneInvariant xacts (zone.setSlot (slotPtr number) (zone.slot number).updateRollbackProgress) context ∧
      ZoneGrows xacts xacts zone
        (zone.setSlot (slotPtr number) (zone.slot number).updateRollbackProgress) := by
  have done : Settled xacts (zone.slot number).updateRollbackProgress := Or.inr ⟨aborted, rfl⟩
  have ranges : ∀ other,
      (zone.setSlot (slotPtr number) (zone.slot number).updateRollbackProgress).startOf other =
        zone.startOf other ∧
      (zone.setSlot (slotPtr number) (zone.slot number).updateRollbackProgress).stopOf other =
        zone.stopOf other := by
    intro other
    simp only [UndoZone.startOf, UndoZone.stopOf, zone.slot_setSlot]
    split
    · rename_i here
      subst here
      exact ⟨rfl, rfl⟩
    · exact ⟨rfl, rfl⟩
  refine ⟨⟨?_, inv.xids.setSlot rfl (fun _ => done) (fun _ => aborted), ?_⟩,
    ZoneGrows.setSlot rfl fun _ => ⟨done, rfl, rfl⟩⟩
  · refine { inv.pointers with fresh := inv.pointers.fresh_setSlot present _, tiles := ?_ }
    have closed : (zone.setSlot (slotPtr number)
        (zone.slot number).updateRollbackProgress).closedNo context = zone.closedNo context := by
      unfold UndoZone.closedNo
      rw [(ranges _).1]
      rfl
    rw [closed]
    exact inv.pointers.tiles.congr fun other _ _ => ranges other
  · refine { inv.backend with current := ?_ }
    intro valid
    obtain ⟨any, place, xid⟩ := inv.backend.current valid
    refine ⟨any, place, ?_⟩
    change ((zone.setSlot _ _).slot (zone.allocNo - 1)).xactId = _
    rw [zone.slot_setSlot]
    split
    · rename_i here
      rw [← xid, here]
      rfl
    · exact xid

end

/-- Transactions begin and end; those with undo in flight keep running. -/
structure XactsGrow (xacts xacts' : Xacts) : Prop where
  nextXid : xacts.nextXid ≤ xacts'.nextXid
  ended : ∀ xid, xacts.status xid ≠ .inProgress → xacts'.status xid = xacts.status xid
  active : ∀ xid, xacts'.Active xid → xacts.Active xid ∨ xacts.nextXid ≤ xid

theorem XactsGrow.settled (grows : XactsGrow xacts xacts') {slot : TransactionSlot}
    (settled : Settled xacts slot) : Settled xacts' slot := by
  rcases settled with committed | ⟨aborted, finished⟩
  · left
    rw [grows.ended _ (by simp [committed]), committed]
  · right
    rw [grows.ended _ (by simp [aborted])]
    exact ⟨aborted, finished⟩

theorem XactsGrow.zoneGrows (grows : XactsGrow xacts xacts') (zone : UndoZone) :
    ZoneGrows xacts xacts' zone zone where
  recycle := rfl
  forceDiscard := rfl
  allocate := le_rfl
  xid := fun _ _ => rfl
  settled := fun _ _ settled => ⟨grows.settled settled, rfl, rfl⟩
  young := fun _ from_end before => absurd before (Nat.not_lt.mpr from_end)

theorem ZoneInvariant.xactsGrow (inv : ZoneInvariant xacts zone context) (grows : XactsGrow xacts xacts')
    (inFlight : ∀ xid, context.phase.xid? = some xid → xacts'.Active xid) :
    ZoneInvariant xacts' zone context := by
  refine ⟨inv.pointers, ?_, { inv.backend with inFlight := inFlight }⟩
  constructor
  · exact inv.xids.normal
  · exact fun number before => (inv.xids.begun number before).trans_le grows.nextXid
  · exact inv.xids.increasing
  · intro number before finished
    have aborted := inv.xids.rolledBack number before finished
    rw [grows.ended _ (by simp [aborted]), aborted]
  · exact fun number before => grows.settled (inv.xids.recycled number before)
  · exact fun number before => grows.settled (inv.xids.frozen number before)

end OpenGauss.Undo
