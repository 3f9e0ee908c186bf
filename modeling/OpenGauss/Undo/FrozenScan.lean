import OpenGauss.Undo.RecyclerInvariant

namespace OpenGauss.Undo

variable {xacts : Xacts} {globals : UndoGlobals} {zone : UndoZone} {context : UndoContext}

section Checks

variable {slot : TransactionSlot}

section

variable (normal : firstNormalTransactionId ≤ slot.xactId) (live : globals.globalRecycleXid ≤ slot.xactId)

include normal live

theorem didCommit_iff : uheapTransactionIdDidCommit xacts globals slot.xactId = true ↔
      xacts.status slot.xactId = .committed := by
  rw [uheapTransactionIdDidCommit, decide_eq_true_iff]
  simp only [firstNormalTransactionId, frozenTransactionId] at *
  constructor
  · rintro (frozen | ⟨-, recycled⟩ | committed)
    · omega
    · omega
    · exact committed
  · exact fun committed => Or.inr (Or.inr committed)

/-- The recycler's test for a slot that needs no rollback any more is sound and complete. -/
theorem settled_iff (rolledBack : slot.rollbackFinish = true → xacts.status slot.xactId = .aborted) :
    Settled xacts slot ↔ ¬ (uheapTransactionIdDidCommit xacts globals slot.xactId = false ∧
      slot.needRollback = true) := by
  rw [← Bool.not_eq_true, didCommit_iff normal live, TransactionSlot.needRollback]
  constructor
  · rintro (committed | ⟨-, finished⟩) ⟨uncommitted, needed⟩
    · exact uncommitted committed
    · simp [finished] at needed
  · intro test
    by_cases committed : xacts.status slot.xactId = .committed
    · exact Or.inl committed
    · have finished : slot.rollbackFinish = true := by
        by_contra unfinished
        exact test ⟨committed, by simpa using unfinished⟩
      exact Or.inr ⟨rolledBack finished, finished⟩

/-- A settled slot that is still there gives `RecheckUndoRecycleXid` nothing to panic about. -/
theorem recheck_false (small : slot.xactId < globals.globalFrozenXid) (settled : Settled xacts slot)
    (rolledBack : slot.rollbackFinish = true → xacts.status slot.xactId = .aborted) :
    recheckUndoRecycleXid xacts globals slot = false := by
  have tested := (settled_iff normal live rolledBack).mp settled
  have order : ¬ globals.globalFrozenXid < globals.globalRecycleXid := by omega
  simp only [recheckUndoRecycleXid, order, decide_false, Bool.false_or]
  by_contra panics
  simp only [Bool.not_eq_false, Bool.and_eq_true, Bool.not_eq_true'] at panics
  exact tested ⟨panics.1.2, panics.2⟩

end

end Checks

/-- A slot without a range is the one its running transaction is about to write. -/
theorem ZoneInvariant.active_of_not_closed (inv : ZoneInvariant xacts zone context)
    {number : Nat} (inside : number < zone.allocNo) (unclosed : ¬ number < zone.closedNo context) :
    xacts.Active (zone.slot number).xactId := by
  unfold UndoZone.closedNo at unclosed
  split at unclosed
  · rename_i pending phase
    obtain ⟨current, -⟩ := inv.backend.slotAllocated pending phase
    have active := inv.backend.inFlight pending.xid (by simp [phase, UndoPhase.xid?])
    obtain ⟨present, -, xid, -⟩ := inv.last_slot (current ▸ active)
    have last : number = zone.allocNo - 1 := by
      split at unclosed <;> omega
    rwa [last, xid, current]
  · exact absurd inside unclosed

theorem ZoneInvariant.active_of_startOf_eq_zero (inv : ZoneInvariant xacts zone context)
    {number : Nat} (live : zone.recycleNo ≤ number) (inside : number < zone.allocNo)
    (opened : zone.startOf number = 0) : xacts.Active (zone.slot number).xactId :=
  inv.active_of_not_closed inside fun closed => inv.pointers.startOf_ne_zero live closed opened

/-- A zone that is not used holds no undo but that of running transactions. -/
theorem ZoneInvariant.active_of_unused (inv : ZoneInvariant xacts zone context)
    (unused : zone.used = false) {number : Nat} (live : zone.recycleNo ≤ number)
    (inside : number < zone.allocNo) : xacts.Active (zone.slot number).xactId := by
  refine inv.active_of_not_closed inside fun closed => ?_
  have tiles := inv.pointers.tiles
  have low := tiles.low_le_start live closed
  have proper := tiles.proper number live closed
  have high := tiles.stop_le_high live closed
  have ends := inv.pointers.closedEnd_le
  have same : zone.insertURecPtr = zone.forceDiscardURecPtr := by
    simpa [UndoZone.used] using unused
  omega

theorem SlotXids.le_of_le (xids : SlotXids xacts zone) {first second : Nat} (order : first ≤ second)
    (inside : second < zone.allocNo) : (zone.slot first).xactId ≤ (zone.slot second).xactId := by
  rcases Nat.eq_or_lt_of_le order with rfl | before
  · exact le_rfl
  · exact (xids.increasing first second before inside).le

/-- Settled slots up to `current`, and none below the bound from there on. -/
theorem settledBelow_of_scan {bound current : Nat}
    (settled : ∀ number < current, Settled xacts (zone.slot number))
    (later : ∀ number, current ≤ number → number < zone.allocNo →
      bound ≤ (zone.slot number).xactId) : SettledBelow xacts zone bound := by
  intro number inside small
  rcases Nat.lt_or_ge number current with passed | ahead
  · exact settled number passed
  · exact absurd (later number ahead inside) (Nat.not_le.mpr small)

/-- What a zone's scan may rely on. -/
structure ScanContext (xacts : Xacts) (globals : UndoGlobals) (zone : UndoZone)
    (context : UndoContext) (oldestXmin : Nat) : Prop where
  inv : ZoneInvariant xacts zone context
  frozen : SettledBelow xacts zone globals.globalFrozenXid
  recycle : LiveXids zone (globals.globalRecycleXid ≤ ·)
  running : BelowRunning xacts oldestXmin
  frozen_le : globals.globalFrozenXid ≤ oldestXmin
  valid : oldestXmin ≠ 0

theorem checkUndoZoneMeta_eq (pointers : ZonePointers zone context) :
    checkUndoZoneMeta zone.allocateTSlotPtr zone.recycleTSlotPtr = zone.allocateTSlotPtr := by
  unfold checkUndoZoneMeta
  rw [if_neg]
  rintro ⟨first, moved⟩
  rw [pointers.allocate, ← slotPtr_zero, slotPtr_inj] at first
  have zero : zone.recycleNo = 0 := by
    have := pointers.recycle_le
    omega
  exact moved (by rw [pointers.recycle, zero, slotPtr_zero])

theorem FrozenScan.start_invariant {oldestXmin : Nat}
    (holds : ScanContext xacts globals zone context oldestXmin) :
    ∃ current last, FrozenScanInvariant xacts zone oldestXmin (FrozenScan.start zone oldestXmin)
      current last := by
  have pointers := holds.inv.pointers
  refine ⟨max zone.frozenNo zone.recycleNo, zone.allocNo, ?_⟩
  constructor
  · simp only [FrozenScan.start]
    rcases pointers.frozen with absent | present
    · have : zone.frozenNo = 0 := by rw [UndoZone.frozenNo, absent, slotNo_zero]
      rw [absent, if_neg (Nat.not_lt_zero _), this, Nat.zero_max]
      exact pointers.recycle
    · have order : zone.recycleTSlotPtr < zone.frozenSlotPtr ↔ zone.recycleNo < zone.frozenNo := by
        rw [pointers.recycle, present, slotPtr_lt]
      by_cases further : zone.recycleNo < zone.frozenNo
      · rw [if_pos (order.mpr further), Nat.max_eq_left further.le]
        exact present
      · rw [if_neg (order.not.mpr further), Nat.max_eq_right (Nat.not_lt.mp further)]
        exact pointers.recycle
  · exact (checkUndoZoneMeta_eq pointers).trans pointers.allocate
  · exact le_max_right _ _
  · exact max_le pointers.frozen_le pointers.recycle_le
  · exact le_rfl
  · intro number passed
    rcases lt_max_iff.mp passed with frozen | recycled
    · exact holds.inv.xids.frozen number frozen
    · exact holds.inv.xids.recycled number recycled
  · intro number ahead inside
    omega
  · rfl
  · refine pointers.frozen.imp id ?_
    intro present
    exact ⟨zone.frozenNo, le_max_left _ _, present⟩

/-- Where a freezing scan may leave the zone's frozen slot pointer. -/
def FrozenPlace (xacts : Xacts) (zone : UndoZone) (pointer : Nat) : Prop :=
  pointer = 0 ∨ ∃ number ≤ zone.allocNo, pointer = slotPtr number ∧
    ∀ passed < number, Settled xacts (zone.slot passed)

/-- Everything one iteration of `AdvanceFrozenXid` can do. -/
theorem FrozenScan.step_cases {oldestXmin : Nat} {scan : FrozenScan} {current last : Nat}
    (holds : ScanContext xacts globals zone context oldestXmin)
    (scanInv : FrozenScanInvariant xacts zone oldestXmin scan current last) :
    ∃ xid scan', (scan.step xacts globals oldestXmin zone = .goOn { zone with frozenXid := xid } scan' ∧
        FrozenScanInvariant xacts zone oldestXmin scan' (current + 1) last) ∨
      (scan.step xacts globals oldestXmin zone = .finished { zone with frozenXid := xid } scan' ∧
        FrozenXidFound xacts globals zone oldestXmin scan'.frozenXid ∧
        FrozenPlace xacts zone scan'.oldestFrozenSlotPtr) := by
  have xids := holds.inv.xids
  have inside : current ≤ zone.allocNo := scanInv.current_le.trans scanInv.last_le
  have kept : FrozenPlace xacts zone scan.oldestFrozenSlotPtr := by
    refine scanInv.place.imp id ?_
    rintro ⟨number, passed, same⟩
    exact ⟨number, passed.trans inside, same, fun other before =>
      scanInv.settled other (before.trans_le passed)⟩
  -- no slot from `current` on is below `oldestXmin`
  have complete : (∀ number, current ≤ number → number < zone.allocNo →
      oldestXmin ≤ (zone.slot number).xactId) →
      FrozenXidFound xacts globals zone oldestXmin scan.frozenXid := by
    intro above
    rw [scanInv.frozenXid]
    exact ⟨holds.valid, holds.frozen_le, le_rfl, settledBelow_of_scan scanInv.settled above⟩
  unfold FrozenScan.step
  by_cases more : scan.currentSlotPtr < scan.allocatePtr
  swap
  · rw [if_neg more]
    rw [scanInv.currentSlotPtr, scanInv.allocatePtr, slotPtr_lt] at more
    refine ⟨zone.frozenXid, scan, Or.inr ⟨rfl, complete ?_, kept⟩⟩
    exact fun number ahead => scanInv.later number (by omega)
  have before : current < zone.allocNo := by
    rw [scanInv.currentSlotPtr, scanInv.allocatePtr, slotPtr_lt] at more
    exact more.trans_le scanInv.last_le
  have place : FrozenPlace xacts zone scan.currentSlotPtr :=
    Or.inr ⟨current, inside, scanInv.currentSlotPtr, scanInv.settled⟩
  have slotIs : zone.slots scan.currentSlotPtr = zone.slot current := by
    rw [scanInv.currentSlotPtr]
    rfl
  have normal := xids.normal current before
  have live := holds.recycle current scanInv.recycle_le before
  have rolledBack := xids.rolledBack current before
  have valid : (zone.slot current).xactId ≠ 0 := by
    simp only [firstNormalTransactionId] at normal
    omega
  have ahead : ∀ {bound}, bound ≤ (zone.slot current).xactId → ∀ number, current ≤ number →
      number < zone.allocNo → bound ≤ (zone.slot number).xactId :=
    fun small number after within => small.trans (xids.le_of_le after within)
  have calm : ¬ ((zone.slot current).xactId < globals.globalFrozenXid ∧
      recheckUndoRecycleXid xacts globals (zone.slot current) = true) := by
    rintro ⟨small, panics⟩
    rw [recheck_false normal live small (holds.frozen current before small) rolledBack] at panics
    cases panics
  simp only [if_pos more, slotIs, if_neg valid, if_neg calm]
  split
  · -- the slot of a running transaction
    rename_i opened
    have active := holds.inv.active_of_startOf_eq_zero scanInv.recycle_le before opened
    exact ⟨_, _, Or.inr ⟨rfl, complete (ahead (holds.running.2 _ active)), kept⟩⟩
  split
  · -- an aborted transaction that waits for its rollback
    rename_i needs
    refine ⟨_, _, Or.inr ⟨rfl, ⟨valid, ?_, needs.2.1.le, settledBelow_of_scan scanInv.settled
      (ahead le_rfl)⟩, place⟩⟩
    by_contra small
    exact (settled_iff normal live rolledBack).mp
      (holds.frozen current before (Nat.not_le.mp small)) ⟨needs.1, needs.2.2⟩
  split
  · rename_i large
    exact ⟨_, _, Or.inr ⟨rfl, complete (ahead large), place⟩⟩
  · rename_i settledOrLater small
    have settled : Settled xacts (zone.slot current) := by
      refine (settled_iff normal live rolledBack).mpr ?_
      rintro ⟨uncommitted, needed⟩
      exact settledOrLater ⟨uncommitted, Nat.not_le.mp small, needed⟩
    refine ⟨_, _, Or.inl ⟨rfl, ?_⟩⟩
    have next : getNextSlotPtr scan.currentSlotPtr = slotPtr (current + 1) := by
      rw [scanInv.currentSlotPtr, getNextSlotPtr_slotPtr]
    have room : current < last := by
      rwa [scanInv.currentSlotPtr, scanInv.allocatePtr, slotPtr_lt] at more
    refine { scanInv with
      currentSlotPtr := next
      recycle_le := Nat.le_succ_of_le scanInv.recycle_le
      current_le := room
      settled := ?_
      place := Or.inr ⟨current + 1, le_rfl, next⟩ }
    intro number passed
    rcases Nat.lt_succ_iff_lt_or_eq.mp passed with earlier | rfl
    · exact scanInv.settled number earlier
    · exact settled

end OpenGauss.Undo
