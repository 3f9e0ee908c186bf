import OpenGauss.Undo.ZoneInvariant

namespace OpenGauss.Undo

variable {xacts : Xacts} {zone : UndoZone} {context : UndoContext}

/-- The end of the last record is the end of all of them. -/
theorem pendingUndo_end (xid undoPtr : Nat) {sizes : List Nat} (filled : sizes ≠ []) :
    offsetPlusUsableBytes (pendingUndo xid undoPtr sizes).lastRecord
      (pendingUndo xid undoPtr sizes).lastRecordSize = offsetPlusUsableBytes undoPtr sizes.sum := by
  induction sizes generalizing undoPtr with
  | nil => exact absurd rfl filled
  | cons size rest ih =>
    cases rest with
    | nil => simp [pendingUndo, placeRecords]
    | cons next others =>
      have := ih (offsetPlusUsableBytes undoPtr size) (by simp)
      simp only [pendingUndo, placeRecords, List.getLast?_cons_cons] at this ⊢
      rw [this, offsetPlusUsableBytes, offsetPlusUsableBytes,
        Lib.plusUsable_plusUsable header_fits, offsetPlusUsableBytes, ← List.sum_cons]

/-- The same zone over spaces that reach further. -/
def UndoZone.withTails (zone : UndoZone) (undoTail slotTail : Nat) : UndoZone :=
  { zone with
    undoSpace := { zone.undoSpace with tail := undoTail }
    slotSpace := { zone.slotSpace with tail := slotTail } }

/-- Tails that the spaces of the zone may be extended to. -/
structure Tails (zone : UndoZone) (undoTail slotTail : Nat) : Prop where
  undo : zone.undoSpace.tail ≤ undoTail
  undo_segment : undoTail % undoLogSegmentSize = 0
  undo_le : undoTail ≤ undoLogMaxSize
  slot : zone.slotSpace.tail = slotTail ∨ zone.allocateTSlotPtr < slotTail
  slot_segment : slotTail % undoMetaSegmentSize = 0
  slot_le : slotTail ≤ undoLogMaxSize

theorem UndoZone.allocateSpace_spec {limitReached : Bool} {size : Nat} {zone' : UndoZone}
    (result : zone.allocateSpace limitReached size = some zone')
    (pointers : ZonePointers zone context)
    (room : offsetPlusUsableBytes zone.insertURecPtr size + undoLogSegmentSize ≤ undoLogMaxSize) :
    ∃ tail, zone' = zone.withTails tail zone.slotSpace.tail ∧ Tails zone tail zone.slotSpace.tail ∧
      offsetPlusUsableBytes zone.insertURecPtr size ≤ tail := by
  have segment := pointers.undoTail_segment
  simp only [allocateSpace] at result
  split at result
  · rename_i short
    obtain ⟨space, extended, rfl⟩ := Option.map_eq_some_iff.mp result
    unfold UndoSpace.extendUndoLog at extended
    split at extended
    · exact absurd extended (by simp)
    · cases extended
      simp only [undoLogSegmentSize] at *
      refine ⟨_, rfl, ⟨?_, ?_, ?_, Or.inl rfl, pointers.slotTail_segment, pointers.slotTail_le⟩, ?_⟩
      · omega
      · simp only [undoLogSegmentSize]
        omega
      · omega
      · omega
  · cases result
    exact ⟨zone.undoSpace.tail, rfl, ⟨le_rfl, segment, pointers.undoTail_le, Or.inl rfl,
      pointers.slotTail_segment, pointers.slotTail_le⟩, by omega⟩

theorem UndoZone.allocateSlotSpace_spec {limitReached : Bool} {zone' : UndoZone}
    (result : zone.allocateSlotSpace limitReached = some zone')
    (pointers : ZonePointers zone context)
    (room : zone.slotSpace.tail + undoMetaSegmentSize ≤ undoLogMaxSize) :
    ∃ tail, zone' = zone.withTails zone.undoSpace.tail tail ∧
      Tails zone zone.undoSpace.tail tail ∧ zone.allocateTSlotPtr < tail := by
  have segment := pointers.slotTail_segment
  have fits := pointers.slotTail
  have allocate := pointers.allocate
  have newInsert : offsetPlusUsableBytes zone.allocateTSlotPtr 32 = zone.allocateTSlotPtr + 32 := by
    rw [allocate, offsetPlusUsableBytes_slotPtr]
  simp only [allocateSlotSpace, newInsert] at result
  -- a pointer below the tail lies on a page of its own segment, so only the other case extends
  unfold slotPtr at allocate
  simp only [undoMetaSegmentSize, blockHeaderSize] at *
  split at result
  · rename_i short
    obtain ⟨space, extended, rfl⟩ := Option.map_eq_some_iff.mp result
    unfold UndoSpace.extendUndoLog at extended
    split at extended
    · exact absurd extended (by simp)
    · cases extended
      refine ⟨_, rfl, ⟨le_rfl, pointers.undoTail_segment, pointers.undoTail_le, ?_, ?_, ?_⟩, ?_⟩
      · right
        omega
      · simp only [undoMetaSegmentSize]
        omega
      · omega
      · omega
  · cases result
    exact ⟨zone.slotSpace.tail, rfl, ⟨le_rfl, pointers.undoTail_segment, pointers.undoTail_le,
      Or.inl rfl, segment, pointers.slotTail_le⟩, by omega⟩

theorem Tails.refl (pointers : ZonePointers zone context) :
    Tails zone zone.undoSpace.tail zone.slotSpace.tail :=
  ⟨le_rfl, pointers.undoTail_segment, pointers.undoTail_le, Or.inl rfl, pointers.slotTail_segment,
    pointers.slotTail_le⟩

/-- Longer spaces, and a backend at the same place, change nothing else about the pointers. -/
theorem ZonePointers.extend (pointers : ZonePointers zone context) {undoTail slotTail : Nat}
    (tails : Tails zone undoTail slotTail) {context' : UndoContext}
    (closedNo : zone.closedNo context' = zone.closedNo context)
    (closedEnd : zone.closedEnd context' = zone.closedEnd context) :
    ZonePointers (zone.withTails undoTail slotTail) context' where
  allocate := pointers.allocate
  recycle := pointers.recycle
  recycle_le := pointers.recycle_le
  frozen := pointers.frozen
  frozen_le := pointers.frozen_le
  fresh := pointers.fresh
  tiles := by
    have := pointers.tiles
    rw [← closedNo, ← closedEnd] at this
    exact this
  closedEnd_le := closedEnd.trans_le pointers.closedEnd_le
  discard_le := pointers.discard_le
  header_le := pointers.header_le
  insert_usable := pointers.insert_usable
  undoTail := by
    rcases pointers.undoTail with inside | ⟨first, absent⟩
    · exact Or.inl (inside.trans tails.undo)
    · have := tails.undo_segment
      rcases Nat.eq_zero_or_pos undoTail with zero | present
      · exact Or.inr ⟨first, zero⟩
      · left
        simp only [UndoZone.withTails, undoLogSegmentSize, blockHeaderSize] at *
        omega
  undoTail_segment := tails.undo_segment
  undoTail_le := tails.undo_le
  undoHead_segment := pointers.undoHead_segment
  undoHead_le := pointers.undoHead_le
  slotTail := by
    rcases tails.slot with same | further
    · simpa only [UndoZone.withTails, ← same] using pointers.slotTail
    · exact Or.inl further.le
  slotTail_segment := tails.slot_segment
  slotTail_le := tails.slot_le
  slotHead_segment := pointers.slotHead_segment
  slotHead_le := pointers.slotHead_le

/-- What `CheckNeedSwitch` and `RollbackIfUndoExceeds` leave room for. -/
theorem room_of_checkNeedSwitch {threshold size : Nat}
    (fits : zone.checkNeedSwitch threshold = false) (small : size ≤ threshold) :
    offsetPlusUsableBytes zone.insertURecPtr size + undoLogSegmentSize ≤ undoLogMaxSize ∧
      zone.slotSpace.tail + undoMetaSegmentSize ≤ undoLogMaxSize := by
  simp only [UndoZone.checkNeedSwitch, Bool.or_eq_false_iff, decide_eq_false_iff_not] at fits
  have := Lib.plusUsable_mono header_fits zone.insertURecPtr small
  simp only [offsetPlusUsableBytes] at fits ⊢
  omega

/-- Everything `PrepareUndoRecord` can do for a backend that has no record in flight. -/
theorem prepareUndoRecord_cases (pointers : ZonePointers zone context) (ready : context.phase = .ready)
    (request : UndoRequest) :
    ∃ undoTail slotTail context',
      prepareUndoRecord zone context request = (zone.withTails undoTail slotTail, context') ∧
      Tails zone undoTail slotTail ∧ context'.prevXid = context.prevXid ∧
      context'.slot = context.slot ∧
      (context.slotBufferValid = true → context'.slotBufferValid = true) ∧
      (context'.phase = .ready ∨
        context'.phase = .allocated (pendingUndo request.xid zone.insertURecPtr request.sizes) ∧
          offsetPlusUsableBytes zone.insertURecPtr request.sizes.sum ≤ undoTail ∧
          context'.slotBufferValid = true ∧
          (request.xid ≠ context.prevXid → context'.slotPtr = zone.allocateTSlotPtr ∧
            zone.allocateTSlotPtr < slotTail)) := by
  have unchanged := Tails.refl pointers
  unfold prepareUndoRecord
  split
  · exact ⟨_, _, context, rfl, unchanged, rfl, rfl, id, Or.inl ready⟩
  rename_i fits
  simp only [allocateUndoSpace]
  generalize (if request.xid ≠ context.prevXid then 0 else context.transUndoSize) = before
  split
  · exact ⟨_, _, _, rfl, unchanged, rfl, rfl, id, Or.inl ready⟩
  rename_i affordable
  obtain ⟨undoRoom, slotRoom⟩ := room_of_checkNeedSwitch (Bool.eq_false_iff.mpr fits)
    (show request.sizes.sum ≤ request.transUndoThresholdSize by omega)
  cases undoSpace : zone.allocateSpace request.undoLimitReached request.sizes.sum with
  | none => exact ⟨_, _, _, rfl, unchanged, rfl, rfl, id, Or.inl ready⟩
  | some extended =>
    obtain ⟨undoTail, rfl, tails, enough⟩ :=
      UndoZone.allocateSpace_spec undoSpace pointers undoRoom
    dsimp only
    split
    · have extended : ZonePointers (zone.withTails undoTail zone.slotSpace.tail) context :=
        pointers.extend tails rfl rfl
      cases slotSpace : (zone.withTails undoTail zone.slotSpace.tail).allocateSlotSpace
          request.slotLimitReached with
      | none => exact ⟨_, _, _, rfl, tails, rfl, rfl, id, Or.inl ready⟩
      | some ready =>
        obtain ⟨slotTail, rfl, longer, below⟩ :=
          UndoZone.allocateSlotSpace_spec slotSpace extended slotRoom
        exact ⟨undoTail, slotTail, _, rfl,
          ⟨tails.undo, tails.undo_segment, tails.undo_le, longer.slot, longer.slot_segment, longer.slot_le⟩,
          rfl, rfl, fun _ => rfl, Or.inr ⟨rfl, enough, rfl, fun _ => ⟨rfl, below⟩⟩⟩
    · rename_i same
      push Not at same
      refine ⟨_, _, _, rfl, tails, rfl, rfl, id, Or.inr ⟨rfl, enough, ?_, ?_⟩⟩
      · exact Bool.eq_true_of_not_eq_false same.2
      · intro other
        exact absurd same.1 other

theorem prepareUndoRecord_invariant (inv : ZoneInvariant xacts zone context)
    (ready : context.phase = .ready) {request : UndoRequest} (active : xacts.Active request.xid)
    (filled : request.sizes ≠ []) (positive : ∀ size ∈ request.sizes, 0 < size) :
    ZoneInvariant xacts (prepareUndoRecord zone context request).1
        (prepareUndoRecord zone context request).2 ∧
      ZoneGrows xacts xacts zone (prepareUndoRecord zone context request).1 := by
  obtain ⟨undoTail, slotTail, context', result, tails, prevXid, slot, buffer, phase⟩ :=
    prepareUndoRecord_cases inv.pointers ready request
  have closed : zone.closedNo context' = zone.closedNo context ∧
      zone.closedEnd context' = zone.closedEnd context := by
    simp only [UndoZone.closedNo, UndoZone.closedEnd, ready]
    rcases phase with phase | ⟨phase, -⟩ <;> simp [phase]
  have size : 0 < request.sizes.sum := by
    obtain ⟨first, rest, sizes⟩ := List.exists_cons_of_ne_nil filled
    have := positive first (by simp [sizes])
    rw [sizes, List.sum_cons]
    omega
  rw [result]
  refine ⟨⟨inv.pointers.extend tails closed.1 closed.2, ⟨inv.xids.normal, inv.xids.begun,
    inv.xids.increasing, inv.xids.rolledBack, inv.xids.recycled, inv.xids.frozen⟩, ?_⟩,
    ZoneGrows.of_slots xacts rfl rfl rfl rfl⟩
  constructor
  · rw [prevXid, slot]
    exact inv.backend.current
  · rw [prevXid]
    exact fun valid => buffer (inv.backend.buffer valid)
  · intro xid flying
    rcases phase with phase | ⟨phase, -⟩
    · simp [phase, UndoPhase.xid?] at flying
    · simp only [phase, UndoPhase.xid?, Option.some.injEq, pendingUndo] at flying
      rwa [← flying]
  · intro pending atPhase
    rcases phase with phase | ⟨phase, enough, valid, place⟩
    · simp [phase] at atPhase
    · obtain rfl : pendingUndo request.xid zone.insertURecPtr request.sizes = pending := by
        simpa [phase] using atPhase
      rw [PendingReady, pendingUndo_end _ _ filled, prevXid]
      exact ⟨⟨enough, Lib.lt_plusUsable header_fits inv.pointers.insert_usable size, valid, place⟩, rfl⟩
  · intro pending atPhase
    rcases phase with phase | ⟨phase, -⟩ <;> simp [phase] at atPhase
  · intro pending atPhase
    rcases phase with phase | ⟨phase, -⟩ <;> simp [phase] at atPhase

theorem prepareUndoMeta_invariant (inv : ZoneInvariant xacts zone context) {pending : PendingUndo}
    (phase : context.phase = .allocated pending) :
    ZoneInvariant xacts (prepareUndoMeta zone pending) { context with phase := .metaPrepared pending } ∧
      ZoneGrows xacts xacts zone (prepareUndoMeta zone pending) := by
  obtain ⟨⟨enough, longer, valid, place⟩, first⟩ := inv.backend.allocated pending phase
  have tiles := inv.pointers.tiles
  simp only [UndoZone.closedNo, UndoZone.closedEnd, phase, ← first] at tiles
  refine ⟨⟨?_, ?_, ?_⟩, ZoneGrows.of_slots xacts rfl rfl rfl rfl⟩
  · exact { inv.pointers with
      tiles := tiles
      closedEnd_le := longer.le
      insert_usable := offsetPlusUsableBytes_usable _ _
      undoTail := Or.inl enough }
  · exact { inv.xids with }
  · constructor
    · exact inv.backend.current
    · exact inv.backend.buffer
    · intro xid flying
      exact inv.backend.inFlight xid (by simpa [phase, UndoPhase.xid?] using flying)
    · simp
    · rintro _ ⟨⟩
      exact ⟨⟨enough, longer, valid, place⟩, rfl⟩
    · simp

end OpenGauss.Undo
