import OpenGauss.Lib.Lists
import OpenGauss.Lib.Run
import OpenGauss.UStore.TupleLayout

/-! The undo payload of an in-place update: `UHeapUpdate` encodes the old row against the new one,
and both decoders read it back relative to a row that carries the new one. -/

namespace OpenGauss.UStore

def minSavingLen : Nat := 3

def uint16Bytes (value : Nat) : List UInt8 :=
  [UInt8.ofNat (value % 256), UInt8.ofNat (value / 256)]

def uint32Bytes (value : UInt32) : List UInt8 :=
  uint16Bytes (value.toNat % 65536) ++ uint16Bytes (value.toNat / 65536)

def tHoff (tuple : List UInt8) : Nat := (byteAt tuple 10).toNat

/-- A shared length too short to be worth its two bytes is not used. -/
def savedLen (length : Nat) : Nat := if length < minSavingLen then 0 else length

/-- Prefix and suffix lengths; only rows of one size are compared. -/
def deltaLens (old new : List UInt8) (logicallyLogged : Bool) : Nat × Nat :=
  let oldp := old.drop (tHoff old)
  let newp := new.drop (tHoff new)
  if new.length = old.length ∧ logicallyLogged = false then
    let prefixlen := savedLen (Lib.commonPrefix oldp newp)
    let minlenWithNoPrefixlen := min oldp.length newp.length - prefixlen
    let suffixlen :=
      savedLen (min (Lib.commonPrefix oldp.reverse newp.reverse) minlenWithNoPrefixlen)
    (prefixlen, suffixlen)
  else (0, 0)

/-- One in-place update: the row as it is stored, the new tuple, and the subtransaction id, if any. -/
structure InplaceUpdate where
  old : List UInt8
  new : List UInt8
  logicallyLogged : Bool
  subxid : Option UInt32

namespace InplaceUpdate

variable (update : InplaceUpdate)

def prefixlen : Nat := (deltaLens update.old update.new update.logicallyLogged).1

def suffixlen : Nat := (deltaLens update.old update.new update.logicallyLogged).2

def oldlen : Nat := update.old.length - tHoff update.old

def xorDeltaFlags : UInt8 :=
  (if 0 < update.prefixlen then 1 else 0) ||| (if 0 < update.suffixlen then 2 else 0)

def undoXorDeltaSize : Nat :=
  (if 0 < update.prefixlen then 2 else 0) + (if 0 < update.suffixlen then 2 else 0) +
    (1 + (tHoff update.old - offsetTdId) + 1) + (update.oldlen - update.prefixlen - update.suffixlen)

def header : List UInt8 := (update.old.take (tHoff update.old)).drop offsetTdId

def middle : List UInt8 :=
  ((update.old.drop (tHoff update.old)).drop update.prefixlen).take
    (update.oldlen - update.prefixlen - update.suffixlen)

def subxidBytes : List UInt8 := (update.subxid.map uint32Bytes).getD []

def rawdata : List UInt8 :=
  [byteAt update.old 10] ++ update.header ++ [update.xorDeltaFlags] ++
    (if 0 < update.prefixlen then uint16Bytes update.prefixlen else []) ++
    (if 0 < update.suffixlen then uint16Bytes update.suffixlen else []) ++
    update.middle ++ update.subxidBytes

/-- Both rows hold a header and fit on a page. -/
structure WellFormed : Prop where
  oldHeader : sizeOfUHeapDiskTupleData ≤ tHoff update.old
  oldInside : tHoff update.old ≤ update.old.length
  newHeader : sizeOfUHeapDiskTupleData ≤ tHoff update.new
  newInside : tHoff update.new ≤ update.new.length
  oldFits : update.old.length ≤ blcksz

variable {update}

theorem lens_le (update : InplaceUpdate) : update.prefixlen + update.suffixlen ≤ update.oldlen ∧
    update.prefixlen + update.suffixlen ≤ update.new.length - tHoff update.new := by
  have first := Lib.commonPrefix_le (update.old.drop (tHoff update.old)) (update.new.drop (tHoff update.new))
  simp only [List.length_drop] at first
  simp only [prefixlen, suffixlen, deltaLens, oldlen, savedLen, List.length_drop]
  split
  · dsimp only
    split <;> split <;> omega
  · simp

theorem length_middle : update.middle.length = update.oldlen - update.prefixlen - update.suffixlen := by
  have inside := (lens_le update).1
  simp only [middle, List.length_take, List.length_drop, oldlen] at *
  omega

theorem length_header (formed : update.WellFormed) :
    update.header.length = tHoff update.old - offsetTdId := by
  simp [header, formed.oldInside]

/-- The payload has the announced size, and a subtransaction id on top of it. -/
theorem length_rawdata (formed : update.WellFormed) :
    update.rawdata.length = update.undoXorDeltaSize + update.subxidBytes.length := by
  simp only [rawdata, undoXorDeltaSize, List.length_append, List.length_singleton, length_middle,
    length_header formed]
  split <;> split <;> simp [uint16Bytes] <;> omega

variable (front rest : List UInt8) (index : Nat)

theorem byteAt_append :
    byteAt (front ++ rest) (front.length + index) = byteAt rest index := by
  simp [byteAt, List.getElem?_append_right]

theorem uint16At_append :
    uint16At (front ++ rest) (front.length + index) = uint16At rest index := by
  simp only [uint16At, byteAt_append, Nat.add_assoc]

theorem uint16At_uint16Bytes {value : Nat} (small : value < 65536) (rest : List UInt8) :
    uint16At (uint16Bytes value ++ rest) 0 = value := by
  simp only [uint16At, uint16Bytes, byteAt, List.cons_append, List.getD_cons_zero,
    List.getD_cons_succ, UInt8.toNat_ofNat']
  omega

theorem prefixlen_lt (formed : update.WellFormed) : update.prefixlen < 65536 := by
  have inside := (lens_le update).1
  have fits := formed.oldFits
  simp only [oldlen, blcksz] at *
  omega

theorem suffixlen_lt (formed : update.WellFormed) : update.suffixlen < 65536 := by
  have inside := (lens_le update).1
  have fits := formed.oldFits
  simp only [oldlen, blcksz] at *
  omega

theorem prefix_flag : (update.xorDeltaFlags &&& 1 ≠ 0) ↔ 0 < update.prefixlen := by
  unfold xorDeltaFlags
  split <;> split <;> simp_all <;> decide

theorem suffix_flag : (update.xorDeltaFlags &&& 2 ≠ 0) ↔ 0 < update.suffixlen := by
  unfold xorDeltaFlags
  split <;> split <;> simp_all <;> decide

/-- Dropping the leading parts of a payload and cutting off the subtransaction id leaves the middle. -/
theorem middle_of_parts (front middle sub : List UInt8) {start : Nat} (past : start = front.length) :
    ((front ++ (middle ++ sub)).drop start).take
      ((front ++ (middle ++ sub)).length - start - sub.length) = middle := by
  subst start
  have rest : (front ++ (middle ++ sub)).length - front.length - sub.length = middle.length := by
    simp only [List.length_append]
    omega
  rw [rest, List.drop_left, List.take_left]

/-- What the decoders read from the payload is what the encoder put there. -/
theorem parse_rawdata (formed : update.WellFormed) :
    InplaceDelta.parse update.rawdata update.subxidBytes.length =
      ⟨tHoff update.old, update.header, update.prefixlen, update.suffixlen, update.middle⟩ := by
  obtain ⟨front, frontIs⟩ : ∃ front, front =
      [byteAt update.old 10] ++ update.header ++ [update.xorDeltaFlags] := ⟨_, rfl⟩
  obtain ⟨pre, preIs⟩ : ∃ pre, pre =
      if 0 < update.prefixlen then uint16Bytes update.prefixlen else [] := ⟨_, rfl⟩
  obtain ⟨suf, sufIs⟩ : ∃ suf, suf =
      if 0 < update.suffixlen then uint16Bytes update.suffixlen else [] := ⟨_, rfl⟩
  have width : 1 + (tHoff update.old - offsetTdId) + 1 = front.length := by
    simp [frontIs, length_header formed]
    omega
  have raw : update.rawdata = front ++ pre ++ suf ++ (update.middle ++ update.subxidBytes) := by
    simp [rawdata, frontIs, preIs, sufIs, List.append_assoc]
  have first : (byteAt update.rawdata 0).toNat = tHoff update.old := rfl
  have flags : byteAt update.rawdata (1 + (tHoff update.old - offsetTdId)) = update.xorDeltaFlags := by
    have place : 1 + (tHoff update.old - offsetTdId) =
        ([byteAt update.old 10] ++ update.header).length + 0 := by
      simp [length_header formed]
      omega
    rw [raw, place, frontIs, List.append_assoc, List.append_assoc, List.append_assoc, byteAt_append]
    rfl
  have head : (update.rawdata.drop 1).take (tHoff update.old - offsetTdId) = update.header := by
    rw [raw, frontIs, ← length_header formed]
    simp [List.append_assoc]
  have prefixIs : (if 0 < update.prefixlen then uint16At update.rawdata front.length else 0) =
      update.prefixlen := by
    split
    · rename_i present
      rw [raw, preIs, if_pos present, List.append_assoc, List.append_assoc]
      exact (uint16At_append front _ 0).trans (uint16At_uint16Bytes (prefixlen_lt formed) _)
    · omega
  have preWidth : (if 0 < update.prefixlen then front.length + 2 else front.length) =
      (front ++ pre).length := by
    rw [List.length_append, preIs]
    split <;> rfl
  have suffixIs : (if 0 < update.suffixlen then uint16At update.rawdata (front ++ pre).length else 0) =
      update.suffixlen := by
    split
    · rename_i present
      rw [raw, sufIs, if_pos present, List.append_assoc]
      exact (uint16At_append (front ++ pre) _ 0).trans (uint16At_uint16Bytes (suffixlen_lt formed) _)
    · omega
  have sufWidth : (if 0 < update.suffixlen then (front ++ pre).length + 2 else (front ++ pre).length) =
      (front ++ pre ++ suf).length := by
    rw [sufIs]
    split <;> simp [uint16Bytes, Nat.add_assoc]
  simp only [InplaceDelta.parse, first, flags, head, width, prefix_flag, suffix_flag, prefixIs,
    preWidth, suffixIs, sufWidth]
  rw [raw, middle_of_parts _ _ _ rfl]

/-- A stored row that carries a tuple: same header length and data. -/
structure Carries (row : Nat → UInt8) (size : Nat) (tuple : List UInt8) : Prop where
  inside : tuple.length ≤ size
  content : ∀ index, 10 ≤ index → index < tuple.length → row index = byteAt tuple index

theorem Carries.readAt {row : Nat → UInt8} {size : Nat} {tuple : List UInt8}
    (carries : Carries row size tuple) {start length : Nat} (low : 10 ≤ start)
    (high : start + length ≤ tuple.length) :
    Lib.readAt row start length = (tuple.drop start).take length := by
  apply List.ext_getElem?
  intro index
  by_cases inside : index < length
  · rw [Lib.getElem?_readAt row start inside, List.getElem?_take_of_lt inside, List.getElem?_drop,
      carries.content _ (by omega) (by omega), List.getElem?_eq_getElem (by omega)]
    simp [byteAt, show start + index < tuple.length by omega]
  · rw [List.getElem?_eq_none (by simpa using inside),
      List.getElem?_eq_none (by simp; omega)]

def oldp (update : InplaceUpdate) : List UInt8 := update.old.drop (tHoff update.old)

def newp (update : InplaceUpdate) : List UInt8 := update.new.drop (tHoff update.new)

theorem savedLen_le (length : Nat) : savedLen length ≤ length := by
  unfold savedLen
  split <;> omega

theorem prefix_shared : update.oldp.take update.prefixlen = update.newp.take update.prefixlen := by
  simp only [prefixlen, deltaLens]
  split
  · exact Lib.take_of_le_commonPrefix (savedLen_le _)
  · simp

theorem suffix_shared : update.oldp.drop (update.oldp.length - update.suffixlen) =
      update.newp.drop (update.newp.length - update.suffixlen) := by
  have reversed : update.oldp.reverse.take update.suffixlen = update.newp.reverse.take update.suffixlen := by
    simp only [suffixlen, deltaLens]
    split
    · exact Lib.take_of_le_commonPrefix ((savedLen_le _).trans (Nat.min_le_left _ _))
    · simp
  rw [List.take_reverse, List.take_reverse] at reversed
  exact List.reverse_injective reversed

theorem same_size_of_suffix (pos : 0 < update.suffixlen) : update.new.length = update.old.length := by
  simp only [suffixlen, deltaLens] at pos
  split at pos
  · rename_i same
    exact same.1
  · simp at pos

/-- Decoding against a row that carries the new tuple, and whose size is still that of the tuple
when both rows had one size, gives the old row with a frozen transaction id. -/
theorem oldDiskTuple_rawdata (formed : update.WellFormed) {row : Nat → UInt8} {size : Nat}
    (carries : Carries row size update.new)
    (steady : update.new.length = update.old.length → size = update.new.length) :
    (InplaceDelta.parse update.rawdata update.subxidBytes.length).oldDiskTuple row size =
      frozenXidBytes ++ update.old.drop offsetTdId := by
  obtain ⟨oldHeader, oldInside, newHeader, newInside, oldFits⟩ := formed
  simp only [sizeOfUHeapDiskTupleData] at oldHeader newHeader
  have start : (row 10).toNat = tHoff update.new := by
    rw [carries.content 10 (le_refl _) (by omega), tHoff]
  obtain ⟨oldLe, newLe⟩ := lens_le update
  have front : Lib.readAt row (tHoff update.new) update.prefixlen = update.oldp.take update.prefixlen := by
    rw [prefix_shared, newp]
    exact carries.readAt (by omega) (by omega)
  have back : Lib.readAt row (tHoff update.new + update.prefixlen + (size - tHoff update.new) -
      update.prefixlen - update.suffixlen) update.suffixlen =
        update.oldp.drop (update.oldp.length - update.suffixlen) := by
    by_cases zero : update.suffixlen = 0
    · simp [zero, Lib.readAt]
    · have sameSize := steady (same_size_of_suffix (by omega))
      have place : tHoff update.new + update.prefixlen + (size - tHoff update.new) -
          update.prefixlen - update.suffixlen = update.new.length - update.suffixlen := by omega
      rw [suffix_shared, place, carries.readAt (by omega) (by omega), newp, List.drop_drop,
        List.length_drop]
      have same : tHoff update.new + (update.new.length - tHoff update.new - update.suffixlen) =
          update.new.length - update.suffixlen := by omega
      rw [same, List.take_of_length_le (by simp; omega)]
  have data : update.oldp.take update.prefixlen ++ (update.middle ++
      update.oldp.drop (update.oldp.length - update.suffixlen)) = update.oldp := by
    have length : update.oldp.length = update.oldlen := by simp [oldp, oldlen]
    have rest : update.oldp.drop (update.oldp.length - update.suffixlen) =
        (update.oldp.drop update.prefixlen).drop (update.oldlen - update.prefixlen - update.suffixlen) := by
      rw [List.drop_drop, length]
      congr 1
      omega
    rw [rest, middle, ← oldp, List.take_append_drop, List.take_append_drop]
  have whole : update.header ++ update.oldp = update.old.drop offsetTdId := by
    rw [header, oldp, ← List.drop_append_of_le_length (by simp [offsetTdId]; omega),
      List.take_append_drop]
  rw [parse_rawdata ⟨oldHeader, oldInside, newHeader, newInside, oldFits⟩]
  simp only [InplaceDelta.oldDiskTuple, start, front, back, List.append_assoc, data, whole]

end InplaceUpdate

/-- The bytes that describe the tuple itself; transaction id, slot and visibility flags are
blanked out. -/
def content (row : Nat → UInt8) (index : Nat) : UInt8 :=
  if index < 6 ∨ index = 7 then 0
  else if index = 6 then row 6 &&& 0x0F
  else if index = 9 then row 9 &&& 0x07
  else row index

/-- The tuple of a row, with everything behind its header. -/
def diskTuple (row : List UInt8) : UHeapDiskTuple where
  natts := uint16At row 8 % 2048
  hasNulls := (byteAt row 6).toNat.testBit 0
  hasVarWidth := (byteAt row 6).toNat.testBit 1
  tHoff := tHoff row
  data := row.drop sizeOfUHeapDiskTupleData

/-- The loop is that of `uheapDeformTuple`, which keeps the values too. -/
def calTupSize (rowDesc : TupleDesc) (diskTuple : UHeapDiskTuple) : Int :=
  (deformLoop rowDesc diskTuple { off := diskTuple.tHoff, values := fun _ => none } 0
    (min diskTuple.natts rowDesc.natts)).off

/-- A tuple that `UHeapFormTuple` built for the relation, maybe before columns were added to it. `head` is
what is in front of `t_hoff`. -/
structure FormedTuple (desc : TupleDesc) where
  head : List UInt8
  older : TupleDesc
  reserveSpace : Bool
  values : Nat → List UInt8
  isNulls : Nat → Bool
  tup : UHeapDiskTuple
  formed : uheapFormTuple older reserveSpace values isNulls = some tup
  fewer : older.natts ≤ desc.natts
  same : ∀ i < older.natts, SameLayout (older.attrs i) (desc.attrs i)
  whole : ∀ i < older.natts, isNulls i = false → Fits (older.attrs i) (values i)
  length_head : head.length = 10
  natts : uint16At head 8 % 2048 = tup.natts
  hasNulls : (byteAt head 6).toNat.testBit 0 = tup.hasNulls
  fits : sizeOfUHeapDiskTupleData + tup.data.length ≤ blcksz

namespace FormedTuple

variable {desc : TupleDesc} (tuple : FormedTuple desc)

def bytes : List UInt8 := tuple.head ++ UInt8.ofNat tuple.tup.tHoff :: tuple.tup.data

theorem length_bytes : tuple.bytes.length = sizeOfUHeapDiskTupleData + tuple.tup.data.length := by
  rw [bytes, List.length_append, tuple.length_head, List.length_cons, sizeOfUHeapDiskTupleData]
  omega

theorem byteAt_head {index : Nat} (low : index < 10) : byteAt tuple.bytes index = byteAt tuple.head index :=
  List.getD_append _ _ _ _ (by rwa [tuple.length_head])

theorem drop_bytes : tuple.bytes.drop sizeOfUHeapDiskTupleData = tuple.tup.data := by
  rw [bytes, List.append_cons]
  refine List.drop_left' ?_
  rw [List.length_append, tuple.length_head]
  rfl

theorem tHoff_bytes : tHoff tuple.bytes = tuple.tup.tHoff := by
  obtain ⟨_, _, -, -, small, -⟩ := bitmap_uheapFormTuple tuple.formed
  have place : byteAt tuple.bytes 10 = UInt8.ofNat tuple.tup.tHoff := by
    rw [byteAt, bytes, List.getD_append_right _ _ _ _ (by rw [tuple.length_head]), tuple.length_head]
    rfl
  rw [tHoff, place, UInt8.toNat_ofNat', Nat.mod_eq_of_lt small]

theorem header : sizeOfUHeapDiskTupleData ≤ tHoff tuple.bytes := by
  rw [tuple.tHoff_bytes]
  exact (uheapFormTuple_formed tuple.formed).tHoff

theorem inside : tHoff tuple.bytes ≤ tuple.bytes.length := by
  obtain ⟨bitmap, columns, data, hoff, -⟩ := bitmap_uheapFormTuple tuple.formed
  rw [tuple.tHoff_bytes, tuple.length_bytes, hoff, data, List.length_append]
  omega

theorem bytes_le : tuple.bytes.length ≤ blcksz := tuple.length_bytes.trans_le tuple.fits

/-- The columns end where the bytes do. -/
theorem tHoff_add_columns : tuple.tup.tHoff + (columnsOf tuple.older.attrs tuple.isNulls
    (reserved tuple.older (tuple.reserveSpace && nAttrsReserveSpace tuple.older.natts)) tuple.values
    tuple.tup.tHoff tuple.older.natts).length = tuple.bytes.length := by
  obtain ⟨bitmap, columns, data, hoff, -⟩ := bitmap_uheapFormTuple tuple.formed
  rw [← tupPtr_uheapFormTuple tuple.formed, tupPtr_tHoff data hoff, tuple.length_bytes, data, hoff,
    List.length_append]
  omega

/-- The size is found in every row that begins with the tuple. -/
theorem calTupSize_eq {row : UHeapDiskTuple} (natts : row.natts = tuple.tup.natts)
    (hasNulls : row.hasNulls = tuple.tup.hasNulls) (tHoff : row.tHoff = tuple.tup.tHoff)
    (data : tuple.tup.data <+: row.data) : calTupSize desc row = tuple.bytes.length := by
  have facts := uheapFormTuple_formed tuple.formed
  obtain ⟨bitmap, columns, parts, -, -, bits⟩ := bitmap_uheapFormTuple tuple.formed
  have within {att : Nat} (inside : att < bitmap.length * 8) :
      att / isnullAttrsPerByte < tuple.tup.data.length := by
    rw [parts, List.length_append]
    exact (div_isnullAttrsPerByte_lt inside).trans_le (Nat.le_add_right _ _)
  have laidOut := (laidOut_uheapFormTuple tuple.formed tuple.same tuple.whole).of_part natts hasNulls tHoff
    data (fun nulls i inside => within (inside.trans_le (bits nulls).1)) (fun nulls reverse i inside null => by
      rw [facts.natts] at reverse ⊢
      have room := (bits nulls).2 reverse
      have total : nullsBefore tuple.isNulls (i + 1) ≤ nullsBefore tuple.isNulls tuple.older.natts :=
        nullsBefore_mono _ inside
      rw [BitsFilled.nullsBefore_null null] at total
      exact within (by omega))
  have count : min row.natts desc.natts = tuple.older.natts := by
    rw [natts, facts.natts]
    exact Nat.min_eq_left tuple.fewer
  rw [calTupSize, count, (laidOut.loop _ le_rfl).1, columnOff, tHoff, ← tuple.tHoff_add_columns]
  rfl

end FormedTuple

/-- A stored row by offset from its start, and the length in its row pointer. -/
structure Row where
  cell : Nat → UInt8
  len : Nat

namespace Row

def bytes (row : Row) : List UInt8 := Lib.readAt row.cell 0 row.len

def stamp (row : Row) (fields : Nat → UInt8) : Row :=
  { row with
    cell := fun index =>
      if index < 6 ∨ index = 7 then fields index
      else if index = 6 then (fields 6 &&& 0xF0) ||| (row.cell 6 &&& 0x0F)
      else row.cell index }

/-- The length only grows; bytes behind a shorter tuple stay. -/
def putInplaceUpdateTuple (row : Row) (new : List UInt8) : Row where
  cell index :=
    if index < 6 ∨ index = 7 then row.cell index
    else if index = 6 then (row.cell 6 &&& 0xF0) ||| (byteAt new 6 &&& 0x0F)
    else if index = 9 then (row.cell 9 &&& 0xF8) ||| (byteAt new 9 &&& 0x07)
    else if index < new.length then byteAt new index
    else row.cell index
  len := if row.len < new.length then new.length else row.len

/-- The tuple is put at a new place, with its own header. -/
def putLinkUpdateTuple (row : Row) (new : List UInt8) : Row where
  cell index := if index < new.length then byteAt new index else row.cell index
  len := new.length

/-- What pruning does with a row that a committed in-place update left shorter than its length. -/
def fixLength (desc : TupleDesc) (row : Row) : Row :=
  let tupSize := calTupSize desc (diskTuple row.bytes)
  if tupSize < row.len then { row with len := (tupSize % 65536).toNat } else row

end Row

/-- Both decoders, on the row they find: the page's for a rollback, the later version's for a read. -/
def InplaceUpdate.decode (update : InplaceUpdate) (row : Nat → UInt8) (size : Nat) : List UInt8 :=
  (InplaceDelta.parse update.rawdata
    (if update.subxid.isSome then sizeOfSubTransactionId else 0)).oldDiskTuple row size

structure RowHistory where
  row : Row
  undo : List InplaceUpdate

inductive RowEvent (desc : TupleDesc) where
  | update (new : FormedTuple desc) (link : Bool) (fields : Nat → UInt8) (logicallyLogged : Bool)
      (subxid : Option UInt32)
  | stamp (fields : Nat → UInt8)
  | fixLength
  | rollback (fields : Nat → UInt8)

namespace RowHistory

variable {desc : TupleDesc}

def update (history : RowHistory) (new : FormedTuple desc) (link : Bool) (fields : Nat → UInt8)
    (logicallyLogged : Bool) (subxid : Option UInt32) : RowHistory where
  row :=
    if link then (history.row.putLinkUpdateTuple new.bytes).stamp fields
    else (history.row.stamp fields).putInplaceUpdateTuple new.bytes
  undo := ⟨history.row.bytes, new.bytes, logicallyLogged, subxid⟩ :: history.undo

/-- `CopyTupleFromUndoRecord` and `RestoreXactFromUndoRecord` for the newest record. -/
def rollback (history : RowHistory) (fields : Nat → UInt8) : RowHistory :=
  match history.undo with
  | [] => history
  | newest :: older =>
    let tuple := newest.decode history.row.cell history.row.len
    let row : Row := ⟨Lib.writeAt history.row.cell 0 tuple, tuple.length⟩
    ⟨row.stamp fields, older⟩

def step (history : RowHistory) : RowEvent desc → RowHistory
  | .update new link fields logicallyLogged subxid =>
    history.update new link fields logicallyLogged subxid
  | .stamp fields => { history with row := history.row.stamp fields }
  | .fixLength => { history with row := history.row.fixLength desc }
  | .rollback fields => history.rollback fields

def start (tuple : FormedTuple desc) : RowHistory :=
  ⟨⟨byteAt tuple.bytes, tuple.bytes.length⟩, []⟩

/-- `GetTupleFromUndoRecord` applied down the chain, from a given version on. -/
def versionsFrom (tuple : List UInt8) : List InplaceUpdate → List (List UInt8)
  | [] => []
  | newest :: older =>
    let previous := newest.decode (byteAt tuple) tuple.length
    previous :: versionsFrom previous older

def versions (history : RowHistory) : List (List UInt8) :=
  versionsFrom history.row.bytes history.undo

end RowHistory

/-- A row as the decoders restore it. -/
def frozenRow (old : List UInt8) : List UInt8 := frozenXidBytes ++ old.drop offsetTdId

end OpenGauss.UStore
