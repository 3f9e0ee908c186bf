import OpenGauss.Undo.FrozenScan

namespace OpenGauss.Undo

variable {xacts : Xacts} {globals : UndoGlobals} {zone : UndoZone} {context : UndoContext}

/-- What the recycler may do to a zone: give up slots at the front. -/
structure ZoneRecycles (zone zone' : UndoZone) : Prop where
  slots : zone'.slots = zone.slots
  allocate : zone'.allocateTSlotPtr = zone.allocateTSlotPtr
  recycle : zone.recycleNo ≤ zone'.recycleNo

theorem ZoneRecycles.refl (zone : UndoZone) : ZoneRecycles zone zone := ⟨rfl, rfl, le_rfl⟩

variable {zone' : UndoZone} {stop : Nat}

theorem ZoneRecycles.slot (recycles : ZoneRecycles zone zone') (number : Nat) :
    zone'.slot number = zone.slot number := by
  rw [UndoZone.slot, recycles.slots, UndoZone.slot]

theorem ZoneRecycles.allocNo (recycles : ZoneRecycles zone zone') : zone'.allocNo = zone.allocNo := by
  rw [UndoZone.allocNo, recycles.allocate, UndoZone.allocNo]

theorem SettledBelow.recycles {bound : Nat} (below : SettledBelow xacts zone bound)
    (recycles : ZoneRecycles zone zone') :
    SettledBelow xacts zone' bound := by
  intro number inside small
  rw [recycles.allocNo] at inside
  rw [recycles.slot] at small ⊢
  exact below number inside small

theorem LiveXids.recycles {allowed : Nat → Prop} (live : LiveXids zone allowed)
    (recycles : ZoneRecycles zone zone') : LiveXids zone' allowed := by
  intro number above inside
  rw [recycles.slot]
  rw [recycles.allocNo] at inside
  exact live number (recycles.recycle.trans above) inside

/-- Everything the inner loop of `RecycleUndoSpace` can decide about a slot. -/
theorem RecycleXids.verdict_cases {xids : RecycleXids} {slot : TransactionSlot}
    (normal : firstNormalTransactionId ≤ slot.xactId)
    (live : globals.globalRecycleXid ≤ slot.xactId)
    (rolledBack : slot.rollbackFinish = true → xacts.status slot.xactId = .aborted)
    (frozen : slot.xactId < xids.frozenXid → Settled xacts slot) :
    (xids.verdict xacts globals slot = .keep ∧
      (slot.startUndoPtr = 0 ∨ xids.recycleXmin ≤ slot.xactId ∨ xids.frozenXid ≤ slot.xactId)) ∨
    ((xids.verdict xacts globals slot = .recycle ∨ xids.verdict xacts globals slot = .forceRecycle) ∧
      Settled xacts slot ∧ slot.startUndoPtr ≠ 0) := by
  have valid : slot.xactId ≠ 0 := by
    simp only [firstNormalTransactionId] at normal
    omega
  have calm : ¬ (slot.xactId < globals.globalRecycleXid ∧
      recheckUndoRecycleXid xacts globals slot = true) := fun panics => by omega
  simp only [RecycleXids.verdict, if_neg valid, if_neg calm]
  split
  · rename_i opened
    exact Or.inl ⟨rfl, Or.inl opened⟩
  rename_i closed
  split
  · split
    · rename_i large
      exact Or.inl ⟨rfl, Or.inr (Or.inr large)⟩
    · rename_i small
      exact Or.inr ⟨Or.inl rfl, frozen (Nat.not_le.mp small), closed⟩
  rename_i old
  split
  · exact Or.inl ⟨rfl, Or.inr (Or.inl (Nat.not_lt.mp old))⟩
  split
  · exact Or.inl ⟨rfl, Or.inr (Or.inl (Nat.not_lt.mp old))⟩
  split
  · exact Or.inl ⟨rfl, Or.inr (Or.inl (Nat.not_lt.mp old))⟩
  · rename_i tested
    exact Or.inr ⟨Or.inr rfl, (settled_iff normal live rolledBack).mpr tested, closed⟩

theorem ZoneInvariant.lt_closedNo (inv : ZoneInvariant xacts zone context) {number : Nat}
    (inside : number < zone.allocNo) (settled : Settled xacts (zone.slot number)) :
    number < zone.closedNo context := by
  unfold UndoZone.closedNo
  split
  · rename_i pending phase
    obtain ⟨current, -⟩ := inv.backend.slotAllocated pending phase
    have active := inv.backend.inFlight pending.xid (by simp [phase, UndoPhase.xid?])
    obtain ⟨-, -, xid, -⟩ := inv.last_slot (current ▸ active)
    have other : number ≠ zone.allocNo - 1 := by
      rintro rfl
      exact settled.not_active (by rwa [xid, current])
    split <;> omega
  · exact inside

theorem releaseSpace_invariant (inv : ZoneInvariant xacts zone context)
    (within : stop ≤ zone.forceDiscardURecPtr) :
    ∃ head, zone.releaseSpace stop = { zone with undoSpace := { zone.undoSpace with head := head } } ∧
      ZoneInvariant xacts (zone.releaseSpace stop) context := by
  unfold UndoZone.releaseSpace
  split
  · refine ⟨_, rfl, ⟨{ inv.pointers with undoHead_segment := ?_, undoHead_le := ?_ },
      { inv.xids with }, { inv.backend with }⟩⟩
    · exact Nat.mul_mod_left _ _
    · exact (Nat.div_mul_le_self _ _).trans within
  · exact ⟨zone.undoSpace.head, rfl, inv⟩

theorem releaseSlotSpace_invariant (inv : ZoneInvariant xacts zone context)
    (within : stop ≤ zone.recycleTSlotPtr) :
    ∃ head, zone.releaseSlotSpace stop = { zone with slotSpace := { zone.slotSpace with head := head } } ∧
      ZoneInvariant xacts (zone.releaseSlotSpace stop) context := by
  unfold UndoZone.releaseSlotSpace
  split
  · refine ⟨_, rfl, ⟨{ inv.pointers with slotHead_segment := ?_, slotHead_le := ?_ },
      { inv.xids with }, { inv.backend with }⟩⟩
    · exact Nat.mul_mod_left _ _
    · exact (Nat.div_mul_le_self _ _).trans within
  · exact ⟨zone.slotSpace.head, rfl, inv⟩

section Batch

variable {oldestXmin : Nat} {xids : RecycleXids} {scan : RecycleScan} {current last : Nat}

section

variable (scanInv : RecycleScanInvariant xacts zone oldestXmin xids scan current last)

include scanInv

/-- The passed slots are tiles of the zone's ranges. -/
theorem RecycleScanInvariant.current_le_closedNo
    (inv : ZoneInvariant xacts zone context) (present : zone.recycleNo < current) :
    current ≤ zone.closedNo context := by
  have inside : current ≤ zone.allocNo := scanInv.current_le.trans scanInv.last_le
  have := inv.lt_closedNo (by omega) (scanInv.settled (current - 1) (by omega))
  omega

theorem RecycleScanInvariant.checkRecycle (inv : ZoneInvariant xacts zone context) (pc : scan.pc = .pageDone)
    (present : scan.undoRecycled = true) :
    zone.checkRecycle scan.startUndoPtr scan.endUndoPtr = true := by
  obtain ⟨before, start, stop, -, -⟩ := scanInv.batch (Or.inr pc) present
  have closed := scanInv.current_le_closedNo inv before
  have tiles := inv.pointers.tiles
  have opens := tiles.opens (by omega)
  have low := tiles.low_le_start (show zone.recycleNo ≤ current - 1 by omega) (by omega)
  have proper := tiles.proper (current - 1) (by omega) (by omega)
  have high := tiles.stop_le_high (show zone.recycleNo ≤ current - 1 by omega) (by omega)
  have ends := inv.pointers.closedEnd_le
  rw [UndoZone.checkRecycle, decide_eq_true_iff, start, stop, opens]
  omega

theorem RecycleScanInvariant.recycleNo_discardBatch : (zone.discardBatch scan).recycleNo = current := by
  rw [UndoZone.recycleNo, UndoZone.discardBatch, scanInv.recyclePtr, slotNo_slotPtr]

theorem RecycleScanInvariant.discardBatch (inv : ZoneInvariant xacts zone context) (pc : scan.pc = .pageDone)
    (present : scan.undoRecycled = true) : ZoneInvariant xacts (zone.discardBatch scan) context := by
  obtain ⟨before, -, stop, -, oldest⟩ := scanInv.batch (Or.inr pc) present
  have closed := scanInv.current_le_closedNo inv before
  have inside : current ≤ zone.allocNo := scanInv.current_le.trans scanInv.last_le
  have count := scanInv.recycleNo_discardBatch
  have tiles := inv.pointers.tiles
  have low := tiles.low_le_start (show zone.recycleNo ≤ current - 1 by omega) (by omega)
  have proper := tiles.proper (current - 1) (by omega) (by omega)
  have further : zone.forceDiscardURecPtr ≤ scan.endUndoPtr := by
    rw [stop]
    omega
  refine ⟨{ inv.pointers with
    recycle := ?_, recycle_le := ?_, tiles := ?_, discard_le := ?_, header_le := ?_
    undoHead_le := ?_, slotHead_le := ?_ }, { inv.xids with recycled := ?_ },
    { inv.backend with }⟩
  · rw [count]
    exact scanInv.recyclePtr
  · rw [count]
    exact inside
  · have dropped := tiles.drop before closed
    rw [← stop] at dropped
    rw [count]
    exact dropped
  · change (if scan.oldestEndUndoPtr = 0 then _ else _) ≤ scan.endUndoPtr
    split
    · exact inv.pointers.discard_le.trans further
    · exact oldest
  · exact inv.pointers.header_le.trans further
  · exact inv.pointers.undoHead_le.trans further
  · refine inv.pointers.slotHead_le.trans ?_
    change zone.recycleTSlotPtr ≤ scan.recyclePtr
    rw [inv.pointers.recycle, scanInv.recyclePtr]
    exact (slotPtr_lt.mpr before).le
  · rw [count]
    exact scanInv.settled

/-- The scan goes on from the batch it gave up. -/
theorem RecycleScanInvariant.afterDiscard (inv : ZoneInvariant xacts zone context) (pc : scan.pc = .pageDone)
    (present : scan.undoRecycled = true) :
    RecycleScanInvariant xacts (zone.discardBatch scan) oldestXmin xids
      { scan with pc := .release, oldestRecycleXid := scan.recycleXid } current last := by
  obtain ⟨before, -, -, xid, oldest⟩ := scanInv.batch (Or.inr pc) present
  have inside : current ≤ zone.allocNo := scanInv.current_le.trans scanInv.last_le
  have count := scanInv.recycleNo_discardBatch
  refine { scanInv with
    recycle_le := count.le, oldest_valid := ?_, oldest := ?_, between := ?_
    released := fun _ => rfl, fresh := by simp, kept := by simp, opened := by simp, batch := by simp }
  · have normal := inv.xids.normal (current - 1) (by omega)
    simp only [firstNormalTransactionId] at normal
    change scan.recycleXid ≠ 0
    omega
  · refine Or.inr ⟨current - 1, ?_, xid⟩
    rw [count]
    omega
  · exact fun _ => ⟨count.symm, oldest⟩

theorem discardBatch_recycles : ZoneRecycles zone (zone.discardBatch scan) := by
  refine ⟨rfl, rfl, ?_⟩
  rw [scanInv.recycleNo_discardBatch]
  exact scanInv.recycle_le

theorem RecycleScanInvariant.take
    (inv : ZoneInvariant xacts zone context) (pc : scan.pc = .inspect) (more : current < last)
    (settled : Settled xacts (zone.slot current)) (forced : Bool) :
    RecycleScanInvariant xacts zone oldestXmin xids (scan.take (zone.slot current) forced)
      (current + 1) last := by
  have closed := inv.lt_closedNo (more.trans_le scanInv.last_le) settled
  have tiles := inv.pointers.tiles
  have proper := tiles.proper current scanInv.recycle_le closed
  have low := tiles.low_le_start scanInv.recycle_le closed
  have next : (scan.take (zone.slot current) forced).recyclePtr = slotPtr (current + 1) := by
    simp only [RecycleScan.take, scanInv.recyclePtr, getNextSlotPtr_slotPtr]
  have start : (scan.take (zone.slot current) forced).startUndoPtr = zone.startOf zone.recycleNo := by
    simp only [RecycleScan.take]
    cases some : scan.undoRecycled with
    | false =>
      obtain ⟨first, absent, -⟩ := scanInv.opened (Or.inl pc) some
      rw [if_pos absent, first]
      rfl
    | true =>
      obtain ⟨before, same, -⟩ := scanInv.batch (Or.inl pc) some
      rw [if_neg, same]
      rw [same]
      exact inv.pointers.startOf_ne_zero le_rfl (by omega)
  have oldest : scan.oldestEndUndoPtr ≤ zone.stopOf current := by
    cases some : scan.undoRecycled with
    | false =>
      obtain ⟨-, -, small⟩ := scanInv.opened (Or.inl pc) some
      omega
    | true =>
      obtain ⟨before, -, stop, -, small⟩ := scanInv.batch (Or.inl pc) some
      have := tiles.stop_le_start (show zone.recycleNo ≤ current - 1 by omega)
        (show current - 1 < current by omega) closed
      omega
  refine { scanInv with
    recyclePtr := next
    recycle_le := Nat.le_succ_of_le scanInv.recycle_le
    current_le := more
    settled := ?_, between := ?_, released := ?_, fresh := ?_, kept := ?_, opened := ?_, batch := ?_ }
  · intro number passed
    rcases Nat.lt_succ_iff_lt_or_eq.mp passed with earlier | rfl
    · exact scanInv.settled number earlier
    · exact settled
  · simp [RecycleScan.take, pc]
  · simp [RecycleScan.take, pc]
  · simp [RecycleScan.take]
  · simp [RecycleScan.take]
  · simp [RecycleScan.take]
  · intro _ _
    refine ⟨Nat.lt_succ_of_le scanInv.recycle_le, start, rfl, rfl, ?_⟩
    change (if scan.forceRecycle || forced then _ else _) ≤ zone.stopOf current
    split
    · exact oldest
    · exact le_rfl

/-- The scan leaves the page at a slot that stays. -/
theorem RecycleScanInvariant.leavePage (pc : scan.pc = .inspect) (kept : scan.undoRecycled = false →
      LiveXids zone fun xid => xids.recycleXmin ≤ xid ∨ scan.oldestRecycleXid ≤ xid) :
    RecycleScanInvariant xacts zone oldestXmin xids { scan with pc := .pageDone } current last :=
  { scanInv with
    between := by simp
    released := by simp
    fresh := by simp
    kept := fun _ => kept
    opened := fun _ => scanInv.opened (Or.inl pc)
    batch := fun _ => scanInv.batch (Or.inl pc) }

/-- Nothing live is below the returned xid when the first slot of the zone stays. -/
theorem RecycleScanInvariant.liveXids (slotXids : SlotXids xacts zone) (first : current = zone.recycleNo)
    (stays : current < zone.allocNo → xids.recycleXmin ≤ (zone.slot current).xactId ∨
      xids.frozenXid ≤ (zone.slot current).xactId) :
    LiveXids zone fun xid => xids.recycleXmin ≤ xid ∨ scan.oldestRecycleXid ≤ xid := by
  intro number above inside
  have order := slotXids.le_of_le (first ▸ above) inside
  rcases stays (by omega) with old | unfrozen
  · exact Or.inl (old.trans order)
  · right
    rcases scanInv.oldest with small | ⟨recycled, before, same⟩
    · exact (small.trans unfrozen).trans order
    · rw [same]
      exact slotXids.le_of_le (by omega) inside

end

end Batch

/-- What a step of `RecycleUndoSpace` may come to. -/
def RecycleStepOk (xacts : Xacts) (zone : UndoZone) (context : UndoContext) (oldestXmin : Nat)
    (xids : RecycleXids) (last : Nat) : ScanStep RecycleScan → Prop
  | .panic => False
  | .goOn zone' scan' =>
    ZoneInvariant xacts zone' context ∧ ZoneRecycles zone zone' ∧
      ∃ current, RecycleScanInvariant xacts zone' oldestXmin xids scan' current last
  | .finished zone' scan' =>
    zone' = zone ∧ scan'.oldestRecycleXid ≠ 0 ∧
      LiveXids zone fun xid => xids.recycleXmin ≤ xid ∨ scan'.oldestRecycleXid ≤ xid

theorem RecycleScan.begin_invariant {oldestXmin : Nat} {xids : RecycleXids}
    (inv : ZoneInvariant xacts zone context) (xmin : xids.recycleXmin ≠ 0)
    (frozen : xids.frozenXid ≠ 0) :
    RecycleScanInvariant xacts zone oldestXmin xids (RecycleScan.begin zone xids) zone.recycleNo
      zone.allocNo := by
  have small : (RecycleScan.begin zone xids).oldestRecycleXid ≤ xids.frozenXid ∧
      (RecycleScan.begin zone xids).oldestRecycleXid ≠ 0 := by
    simp only [RecycleScan.begin]
    split
    · omega
    · exact ⟨le_rfl, frozen⟩
  exact {
    recyclePtr := inv.pointers.recycle
    allocatePtr := (checkUndoZoneMeta_eq inv.pointers).trans inv.pointers.allocate
    recycle_le := le_rfl
    current_le := inv.pointers.recycle_le
    last_le := le_rfl
    settled := inv.xids.recycled
    later := fun number above inside => absurd inside (Nat.not_lt.mpr above)
    oldest_valid := small.2
    oldest := Or.inl small.1
    between := fun _ => ⟨rfl, Nat.zero_le _⟩
    released := by simp [RecycleScan.begin]
    fresh := by simp [RecycleScan.begin]
    kept := by simp [RecycleScan.begin]
    opened := by simp [RecycleScan.begin]
    batch := by simp [RecycleScan.begin] }

section Step

variable {oldestXmin : Nat} {xids : RecycleXids} {scan : RecycleScan} {current last : Nat}

section

variable (holds : ScanContext xacts globals zone context oldestXmin)
  (frozen : SettledBelow xacts zone xids.frozenXid) (xmin_le : xids.recycleXmin ≤ oldestXmin)
  (scanInv : RecycleScanInvariant xacts zone oldestXmin xids scan current last)

include holds frozen xmin_le scanInv

theorem RecycleScan.inspectSlot_ok (pc : scan.pc = .inspect) :
    RecycleStepOk xacts zone context oldestXmin xids last (scan.inspectSlot xids xacts globals zone) := by
  unfold RecycleScan.inspectSlot
  split
  · rename_i page
    have more : current < last := by
      have := page.2
      rwa [scanInv.recyclePtr, scanInv.allocatePtr, slotPtr_lt] at this
    have inside : current < zone.allocNo := more.trans_le scanInv.last_le
    have slotIs : zone.slots scan.recyclePtr = zone.slot current := by
      rw [scanInv.recyclePtr]
      rfl
    have slotXids := holds.inv.xids
    rw [slotIs]
    rcases RecycleXids.verdict_cases (slotXids.normal current inside)
        (holds.recycle current scanInv.recycle_le inside) (slotXids.rolledBack current inside)
        (frozen current inside) with ⟨keep, reason⟩ | ⟨take | take, settled, -⟩
    · rw [keep]
      refine ⟨holds.inv, ZoneRecycles.refl zone, current, scanInv.leavePage pc ?_⟩
      intro absent
      refine scanInv.liveXids slotXids (scanInv.opened (Or.inl pc) absent).1 fun _ => ?_
      rcases reason with opened | young
      · have active := holds.inv.active_of_startOf_eq_zero scanInv.recycle_le inside opened
        exact Or.inl (xmin_le.trans (holds.running.2 _ active))
      · exact young
    · rw [take]
      exact ⟨holds.inv, ZoneRecycles.refl zone, current + 1, scanInv.take holds.inv pc more settled false⟩
    · rw [take]
      exact ⟨holds.inv, ZoneRecycles.refl zone, current + 1, scanInv.take holds.inv pc more settled true⟩
  · rename_i leaves
    refine ⟨holds.inv, ZoneRecycles.refl zone, current, scanInv.leavePage pc ?_⟩
    intro absent
    obtain ⟨more, block⟩ := scanInv.fresh pc absent
    exact absurd ⟨block, by rwa [scanInv.recyclePtr, scanInv.allocatePtr, slotPtr_lt]⟩ leaves

theorem RecycleScan.step_ok (locked : Bool) :
    RecycleStepOk xacts zone context oldestXmin xids last (scan.step xids xacts globals locked zone) := by
  unfold RecycleScan.step
  cases pc : scan.pc with
  | nextPage =>
    obtain ⟨first, oldest⟩ := scanInv.between (Or.inl pc)
    dsimp only
    split
    · rename_i more
      rw [scanInv.recyclePtr, scanInv.allocatePtr, slotPtr_lt] at more
      exact ⟨holds.inv, ZoneRecycles.refl zone, current,
        { scanInv with
          between := by simp
          released := by simp
          fresh := fun _ _ => ⟨more, rfl⟩
          kept := by simp
          opened := fun _ _ => ⟨first, rfl, oldest⟩
          batch := by simp }⟩
    · rename_i done
      rw [scanInv.recyclePtr, scanInv.allocatePtr, slotPtr_lt] at done
      refine ⟨rfl, scanInv.oldest_valid, scanInv.liveXids holds.inv.xids first ?_⟩
      intro inside
      exact Or.inl (xmin_le.trans (scanInv.later current (Nat.not_lt.mp done) inside))
  | inspect => exact RecycleScan.inspectSlot_ok holds frozen xmin_le scanInv pc
  | pageDone =>
    dsimp only
    cases some : scan.undoRecycled with
    | false => exact ⟨rfl, scanInv.oldest_valid, scanInv.kept pc some⟩
    | true =>
      cases locked with
      | true => exact ⟨holds.inv, ZoneRecycles.refl zone, current, scanInv⟩
      | false =>
        rw [if_pos rfl, if_neg Bool.false_ne_true, if_pos (scanInv.checkRecycle holds.inv pc some)]
        have after := scanInv.afterDiscard holds.inv pc some
        rw [some] at after
        exact ⟨scanInv.discardBatch holds.inv pc some, discardBatch_recycles scanInv, current, after⟩
  | release =>
    obtain ⟨first, oldest⟩ := scanInv.between (Or.inr pc)
    obtain ⟨undoHead, undoReleased, undoInv⟩ :=
      releaseSpace_invariant holds.inv (scanInv.released pc).le
    have within : scan.recyclePtr ≤ (zone.releaseSpace scan.endUndoPtr).recycleTSlotPtr := by
      rw [undoReleased, scanInv.recyclePtr, first]
      exact holds.inv.pointers.recycle.ge
    obtain ⟨slotHead, slotReleased, slotInv⟩ := releaseSlotSpace_invariant undoInv within
    refine ⟨slotInv, ?_, current, ?_⟩
    · rw [slotReleased, undoReleased]
      exact ⟨rfl, rfl, le_rfl⟩
    · rw [slotReleased, undoReleased]
      exact { scanInv with
        between := fun _ => ⟨first, oldest⟩
        released := by simp
        fresh := by simp
        kept := by simp
        opened := by simp
        batch := by simp }

end

end Step

end OpenGauss.Undo
