import OpenGauss.UStore.RowVersions

namespace OpenGauss.UStore

theorem length_subxidBytes (update : InplaceUpdate) :
    update.subxidBytes.length = if update.subxid.isSome then sizeOfSubTransactionId else 0 := by
  cases given : update.subxid with
  | none => simp [InplaceUpdate.subxidBytes, given]
  | some value => simp [InplaceUpdate.subxidBytes, given, uint32Bytes, uint16Bytes,
      sizeOfSubTransactionId]

theorem byteAt_readAt (cell : Nat → UInt8) {len index : Nat} (inside : index < len) :
    byteAt (Lib.readAt cell 0 len) index = cell index := by
  simp [byteAt, Lib.getElem?_readAt cell 0 inside]

theorem content_congr {first second : Nat → UInt8} {index : Nat}
    (same : first index = second index) : content first index = content second index := by
  unfold content
  split
  · rfl
  · split
    · rename_i six
      subst six
      rw [same]
    · split
      · rename_i nine
        subst nine
        rw [same]
      · exact same

theorem toNat_mod_of_and {left right mask : UInt8} {width : Nat} (low : mask.toNat = 2 ^ width - 1)
    (same : left &&& mask = right &&& mask) : left.toNat % 2 ^ width = right.toNat % 2 ^ width := by
  have bits := congrArg UInt8.toNat same
  rwa [UInt8.toNat_and, UInt8.toNat_and, low, Nat.and_two_pow_sub_one_eq_mod,
    Nat.and_two_pow_sub_one_eq_mod] at bits

/-- A row holds a tuple, followed by leftovers up to its length. -/
structure Stored {desc : TupleDesc} (cell : Nat → UInt8) (len : Nat)
    (tuple : FormedTuple desc) : Prop where
  inside : tuple.bytes.length ≤ len
  fits : len ≤ blcksz
  same : ∀ index < tuple.bytes.length, content cell index = content (byteAt tuple.bytes) index

namespace Stored

variable {desc : TupleDesc} {cell other : Nat → UInt8} {len : Nat} {tuple : FormedTuple desc}

variable (stored : Stored cell len tuple)
include stored

theorem cell_eq {index : Nat} (low : 10 ≤ index)
    (high : index < tuple.bytes.length) : cell index = byteAt tuple.bytes index := by
  have same := stored.same index high
  simpa [content, show ¬ index < 6 by omega, show index ≠ 7 by omega, show index ≠ 6 by omega,
    show index ≠ 9 by omega] using same

theorem congr (same : ∀ index < len, content other index = content cell index)
    : Stored other len tuple :=
  ⟨stored.inside, stored.fits, fun index low =>
    (same index (low.trans_le stored.inside)).trans (stored.same index low)⟩

theorem carries : InplaceUpdate.Carries cell len tuple.bytes :=
  ⟨stored.inside, fun _ low high => stored.cell_eq low high⟩

/-- Whatever the row went through, its attributes still end where the tuple does. -/
theorem calTupSize_eq :
    calTupSize desc (diskTuple (Lib.readAt cell 0 len)) = tuple.bytes.length := by
  have long := tuple.length_bytes
  rw [sizeOfUHeapDiskTupleData] at long
  have inside := stored.inside
  have byte (index : Nat) (low : 10 ≤ index) (high : index < tuple.bytes.length) :
      byteAt (Lib.readAt cell 0 len) index = byteAt tuple.bytes index := by
    rw [byteAt_readAt cell (by omega), stored.cell_eq low high]
  have head (index : Nat) (low : index < 10) :
      content (byteAt (Lib.readAt cell 0 len)) index = content (byteAt tuple.head) index := by
    rw [content_congr (byteAt_readAt cell (by omega)), stored.same index (by omega),
      content_congr (tuple.byteAt_head low)]
  refine tuple.calTupSize_eq ?_ ?_ ?_ ?_
  · have low : byteAt (Lib.readAt cell 0 len) 8 = byteAt tuple.head 8 := head 8 (by decide)
    have high : byteAt (Lib.readAt cell 0 len) 9 &&& 0x07 = byteAt tuple.head 9 &&& 0x07 := head 9 (by decide)
    have rest := toNat_mod_of_and (show (0x07 : UInt8).toNat = 2 ^ 3 - 1 from rfl) high
    rw [← tuple.natts]
    change ((byteAt (Lib.readAt cell 0 len) 8).toNat + 256 * (byteAt (Lib.readAt cell 0 len) 9).toNat) % 2048 =
      ((byteAt tuple.head 8).toNat + 256 * (byteAt tuple.head 9).toNat) % 2048
    rw [low]
    omega
  · have flags : byteAt (Lib.readAt cell 0 len) 6 &&& 0x0F = byteAt tuple.head 6 &&& 0x0F := head 6 (by decide)
    have rest := toNat_mod_of_and (show (0x0F : UInt8).toNat = 2 ^ 4 - 1 from rfl) flags
    rw [← tuple.hasNulls, diskTuple, Nat.testBit_zero, Nat.testBit_zero, decide_eq_decide]
    omega
  · rw [diskTuple, ← tuple.tHoff_bytes]
    exact congrArg UInt8.toNat (byte 10 le_rfl (by omega))
  · rw [diskTuple, ← tuple.drop_bytes, List.prefix_iff_getElem?]
    intro index low
    rw [List.length_drop, sizeOfUHeapDiskTupleData] at low
    have same : cell (11 + index) = byteAt tuple.bytes (11 + index) :=
      stored.cell_eq (by omega) (by omega)
    rw [byteAt, List.getD_eq_getElem _ _ (by omega)] at same
    rw [List.getElem?_drop, Lib.getElem?_readAt cell 0 (by rw [sizeOfUHeapDiskTupleData]; omega),
      List.getElem_drop, Nat.zero_add]
    exact congrArg some same

end Stored

variable (row : Row) (new : List UInt8)

theorem content_stamp (fields : Nat → UInt8) (index : Nat) :
    content (row.stamp fields).cell index = content row.cell index := by
  by_cases six : index = 6
  · subst six
    simpa [content, Row.stamp] using Lib.fill_and_mask (fields 6) (row.cell 6) 0xF0 0x0F (by decide)
  · by_cases blank : index < 6 ∨ index = 7
    · simp [content, blank]
    · apply content_congr
      simp [Row.stamp, blank, six]

theorem content_putInplaceUpdateTuple {index : Nat} (inside : index < new.length) :
    content (row.putInplaceUpdateTuple new).cell index = content (byteAt new) index := by
  by_cases six : index = 6
  · subst six
    simpa [content, Row.putInplaceUpdateTuple] using
      Lib.fill_and_mask (row.cell 6) (byteAt new 6) 0xF0 0x0F (by decide)
  · by_cases nine : index = 9
    · subst nine
      simpa [content, Row.putInplaceUpdateTuple] using
        Lib.fill_and_mask (row.cell 9) (byteAt new 9) 0xF8 0x07 (by decide)
    · by_cases blank : index < 6 ∨ index = 7
      · simp [content, blank]
      · apply content_congr
        simp [Row.putInplaceUpdateTuple, blank, six, nine, inside]

theorem len_putInplaceUpdateTuple :
    (row.putInplaceUpdateTuple new).len = max row.len new.length := by
  simp only [Row.putInplaceUpdateTuple]
  split <;> omega

section Chain

variable {desc : TupleDesc}

/-- Every version down the chain holds the tuple of the update that made it, and after an update
that kept the size its length is still the tuple's. -/
def Holds (desc : TupleDesc) (cell : Nat → UInt8) (len : Nat) : List InplaceUpdate → Prop
  | [] => ∃ tuple : FormedTuple desc, Stored cell len tuple
  | newest :: older =>
    (∃ tuple : FormedTuple desc, Stored cell len tuple ∧ newest.new = tuple.bytes) ∧
      (newest.new.length = newest.old.length → len = newest.new.length) ∧
      Holds desc (byteAt newest.old) newest.old.length older

variable {cell other : Nat → UInt8} {len : Nat} {undo older : List InplaceUpdate} {newest : InplaceUpdate}

theorem Holds.stored (holds : Holds desc cell len undo) :
    ∃ tuple : FormedTuple desc, Stored cell len tuple := by
  cases undo with
  | nil => exact holds
  | cons newest older =>
    obtain ⟨⟨tuple, stored, -⟩, -⟩ := holds
    exact ⟨tuple, stored⟩

theorem Holds.congr (holds : Holds desc cell len undo)
    (same : ∀ index < len, content other index = content cell index) :
    Holds desc other len undo := by
  cases undo with
  | nil =>
    obtain ⟨tuple, stored⟩ := holds
    exact ⟨tuple, stored.congr same⟩
  | cons newest older =>
    obtain ⟨⟨tuple, stored, made⟩, steady, rest⟩ := holds
    exact ⟨⟨tuple, stored.congr same, made⟩, steady, rest⟩

theorem Holds.wellFormed (holds : Holds desc cell len (newest :: older)) : newest.WellFormed := by
  obtain ⟨⟨tuple, -, made⟩, -, rest⟩ := holds
  obtain ⟨previous, stored⟩ := rest.stored
  have header := previous.header
  have inside := previous.inside
  have same : tHoff newest.old = tHoff previous.bytes := by
    simp only [sizeOfUHeapDiskTupleData] at header
    have byte := stored.cell_eq (le_refl 10) (by omega)
    simp only [tHoff, byte]
  refine ⟨?_, ?_, ?_, ?_, stored.fits⟩
  · rw [same]
    exact header
  · rw [same]
    exact inside.trans stored.inside
  · rw [made]
    exact tuple.header
  · rw [made]
    exact tuple.inside

/-- Decoding the newest record against a row that holds its tuple gives the row before it. -/
theorem Holds.decode (holds : Holds desc cell len (newest :: older)) :
    newest.decode cell len = frozenRow newest.old := by
  obtain ⟨⟨tuple, stored, made⟩, steady, -⟩ := id holds
  rw [InplaceUpdate.decode, ← length_subxidBytes]
  exact InplaceUpdate.oldDiskTuple_rawdata holds.wellFormed (by rw [made]; exact stored.carries) steady

theorem length_frozenRow {old : List UInt8} (header : offsetTdId ≤ old.length) :
    (frozenRow old).length = old.length := by
  simp only [frozenRow, frozenXidBytes, offsetTdId, List.length_append, List.length_drop,
    List.length_cons, List.length_nil] at *
  omega

theorem content_frozenRow (old : List UInt8) (index : Nat) :
    content (byteAt (frozenRow old)) index = content (byteAt old) index := by
  by_cases xid : index < 6
  · simp [content, xid]
  · apply content_congr
    obtain ⟨past, rfl⟩ := Nat.exists_eq_add_of_le (show 4 ≤ index by omega)
    have skip := InplaceUpdate.byteAt_append frozenXidBytes (old.drop offsetTdId) past
    rw [frozenRow]
    refine skip.trans ?_
    simp [byteAt, offsetTdId]

theorem Holds.old_long (holds : Holds desc cell len (newest :: older)) :
    offsetTdId ≤ newest.old.length := by
  have formed := holds.wellFormed
  have header := formed.oldHeader
  have inside := formed.oldInside
  simp only [sizeOfUHeapDiskTupleData, offsetTdId] at *
  omega

/-- The chain below the newest record, seen from the row that record restores. -/
theorem Holds.older_frozen (holds : Holds desc cell len (newest :: older)) :
    Holds desc (byteAt (frozenRow newest.old)) (frozenRow newest.old).length older := by
  rw [length_frozenRow holds.old_long]
  exact holds.2.2.congr (fun index _ => content_frozenRow newest.old index)

theorem Holds.sizes (holds : Holds desc cell len undo) {update : InplaceUpdate} (member : update ∈ undo) :
    update.rawdata.length = update.undoXorDeltaSize +
        (if update.subxid.isSome then sizeOfSubTransactionId else 0) ∧
      (frozenRow update.old).length = update.old.length := by
  induction undo generalizing cell len with
  | nil => cases member
  | cons newest older ih =>
    rcases List.mem_cons.mp member with rfl | later
    · refine ⟨?_, length_frozenRow holds.old_long⟩
      rw [← length_subxidBytes]
      exact InplaceUpdate.length_rawdata holds.wellFormed
    · exact ih holds.2.2 later

theorem Holds.versionsFrom {tuple : List UInt8} (holds : Holds desc (byteAt tuple) tuple.length undo) :
    RowHistory.versionsFrom tuple undo = undo.map fun update => frozenRow update.old := by
  induction undo generalizing tuple with
  | nil => rfl
  | cons newest older ih =>
    simp only [RowHistory.versionsFrom, holds.decode, List.map_cons]
    rw [ih holds.older_frozen]

end Chain

/-- An undo record that was written for an in-place update. -/
structure UndoRecord.Undoes (record : UndoRecord) (update : InplaceUpdate) : Prop where
  utype : record.utype = .inplaceUpdate
  rawdata : record.rawdata = update.rawdata
  subxid : record.containSubXact = update.subxid.isSome

theorem UndoRecord.Undoes.restoredTuple {record : UndoRecord} {update : InplaceUpdate}
    (undoes : record.Undoes update) (row : Nat → UInt8) (size : Nat) :
    record.restoredTuple row size = some (update.decode row size) := by
  simp [UndoRecord.restoredTuple, undoes.utype, undoes.rawdata, UndoRecordData.subxidSize,
    undoes.subxid, InplaceUpdate.decode]

namespace RowHistory

variable {desc : TupleDesc} {history : RowHistory}

def Valid (desc : TupleDesc) (history : RowHistory) : Prop :=
  Holds desc history.row.cell history.row.len history.undo

theorem valid_start (tuple : FormedTuple desc) : (start tuple).Valid desc :=
  ⟨tuple, le_refl _, tuple.bytes_le, fun _ _ => rfl⟩

section

variable (valid : history.Valid desc)

include valid

theorem Valid.update (new : FormedTuple desc) (link : Bool)
    (fields : Nat → UInt8) (logicallyLogged : Bool) (subxid : Option UInt32) :
    (history.update new link fields logicallyLogged subxid).Valid desc := by
  obtain ⟨tuple, stored⟩ := valid.stored
  have older : Holds desc (byteAt history.row.bytes) history.row.bytes.length history.undo := by
    rw [Row.bytes, Lib.length_readAt]
    exact valid.congr fun index inside => content_congr (byteAt_readAt _ inside)
  cases link with
  | true =>
    refine ⟨⟨new, ⟨le_refl _, new.bytes_le, ?_⟩, rfl⟩, fun _ => rfl, older⟩
    intro index inside
    refine (content_stamp _ fields index).trans (content_congr ?_)
    simp [Row.putLinkUpdateTuple, inside]
  | false =>
    have grown : (history.update new false fields logicallyLogged subxid).row.len =
        max history.row.len new.bytes.length :=
      len_putInplaceUpdateTuple (history.row.stamp fields) new.bytes
    refine ⟨⟨new, ⟨?_, ?_, ?_⟩, rfl⟩, ?_, older⟩
    · rw [grown]
      exact le_max_right _ _
    · rw [grown]
      exact max_le stored.fits new.bytes_le
    · intro index inside
      exact content_putInplaceUpdateTuple (history.row.stamp fields) new.bytes inside
    · intro same
      rw [Row.bytes, Lib.length_readAt] at same
      rw [grown, same, max_self]

theorem Valid.fixLength : RowHistory.Valid desc { history with row := history.row.fixLength desc } := by
  obtain ⟨tuple, stored⟩ := valid.stored
  unfold Row.fixLength
  dsimp only
  split
  · rename_i shorter
    have size (other : FormedTuple desc) (holds : Stored history.row.cell history.row.len other) :
        (calTupSize desc (diskTuple history.row.bytes) % 65536).toNat = other.bytes.length := by
      have small := other.bytes_le
      rw [blcksz] at small
      rw [Row.bytes, holds.calTupSize_eq]
      omega
    cases chain : history.undo with
    | nil =>
      simp only [Valid, size tuple stored]
      exact ⟨tuple, le_refl _, tuple.bytes_le, stored.same⟩
    | cons newest older =>
      rw [Valid, chain] at valid
      obtain ⟨⟨tuple, stored, made⟩, steady, rest⟩ := valid
      simp only [Valid, size tuple stored]
      refine ⟨⟨tuple, ⟨le_refl _, tuple.bytes_le, stored.same⟩, made⟩, ?_, rest⟩
      intro _
      rw [made]
  · exact valid

theorem Valid.stamp (fields : Nat → UInt8) :
    RowHistory.Valid desc { history with row := history.row.stamp fields } :=
  Holds.congr valid fun index _ => content_stamp history.row fields index

theorem Valid.rollback (fields : Nat → UInt8) : (history.rollback fields).Valid desc := by
  unfold RowHistory.rollback
  cases chain : history.undo with
  | nil => exact valid
  | cons newest older =>
    rw [Valid, chain] at valid
    simp only [Valid, valid.decode]
    refine valid.older_frozen.congr fun index inside => ?_
    refine (content_stamp _ fields index).trans (content_congr ?_)
    simp [Lib.writeAt, byteAt, inside]

theorem Valid.step (event : RowEvent desc) : (history.step event).Valid desc := by
  cases event with
  | update new link fields logicallyLogged subxid =>
    exact valid.update new link fields logicallyLogged subxid
  | stamp fields => exact valid.stamp fields
  | fixLength => exact valid.fixLength
  | rollback fields => exact valid.rollback fields

end

theorem valid_run (tuple : FormedTuple desc) (events : List (RowEvent desc)) :
    (Lib.run step (start tuple) events).Valid desc :=
  Lib.run_invariant (Valid desc) (fun _ event valid => valid.step event) (valid_start tuple) events

end RowHistory

/-- A row of transaction 9: a text, a null with its space, and a number that ends in three zeros. -/
def sampleRow (text : List UInt8) (first : UInt8) (data : List UInt8)
    (whole : Fits (textAndIntegers.attrs 0) text)
    (formed : uheapFormTuple textAndIntegers true (fun att => if att = 0 then text else [first, 0, 0, 0])
      (fun att => att == 1) = some ⟨3, true, true, 12, data⟩)
    (fits : sizeOfUHeapDiskTupleData + data.length ≤ blcksz) : FormedTuple textAndIntegers where
  head := [9, 0, 0, 0, 1, 0, 3, 0, 3, 0]
  older := textAndIntegers
  reserveSpace := true
  values att := if att = 0 then text else [first, 0, 0, 0]
  isNulls att := att == 1
  tup := ⟨3, true, true, 12, data⟩
  formed := formed
  fewer := le_rfl
  same _ _ := ⟨rfl, rfl, rfl⟩
  whole := by
    intro i _ value
    by_cases leading : i = 0
    · rw [leading]
      exact whole
    · have attr : textAndIntegers.attrs i = textAndIntegers.attrs 1 := if_neg leading
      rw [if_neg leading, attr]
      exact ⟨le_rfl, fun varlena => absurd varlena (by decide)⟩
  length_head := rfl
  natts := rfl
  hasNulls := rfl
  fits := fits

def longRow : FormedTuple textAndIntegers :=
  sampleRow [7, 97, 98] 5 [13, 7, 97, 98, 0, 0, 0, 0, 5, 0, 0, 0] ⟨by decide, by decide⟩ (by decide) (by decide)

def shortRow : FormedTuple textAndIntegers :=
  sampleRow [5, 97] 5 [13, 5, 97, 0, 0, 0, 0, 5, 0, 0, 0] ⟨by decide, by decide⟩ (by decide) (by decide)

def changedRow : FormedTuple textAndIntegers :=
  sampleRow [5, 97] 6 [13, 5, 97, 0, 0, 0, 0, 6, 0, 0, 0] ⟨by decide, by decide⟩ (by decide) (by decide)

/-- The text becomes shorter, its space is given back, and the number changes. -/
def twoUpdates : List (RowEvent textAndIntegers) :=
  [.update shortRow false (fun _ => 0) false none, .fixLength,
    .update changedRow false (fun _ => 0) false (some 3)]

end OpenGauss.UStore
