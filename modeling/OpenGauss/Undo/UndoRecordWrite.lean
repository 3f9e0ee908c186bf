import OpenGauss.Undo.UndoRecordBytes

namespace OpenGauss.Undo

/-- What writing the parts of a record to one page comes to: as many of the bytes that are not
written yet as the page has room for. -/
structure Written (flat : List UInt8) (cursor : WriteCursor) (result : Bool × WriteCursor) : Prop where
  complete : result.1 = decide (flat.length - cursor.myBytesWritten ≤ cursor.endptr - cursor.writeptr)
  storage : result.2.storage = Lib.writeAt cursor.storage cursor.writeptr
    ((flat.drop cursor.myBytesWritten).take (cursor.endptr - cursor.writeptr))
  alreadyWritten : result.2.alreadyWritten = cursor.alreadyWritten +
    min (flat.length - cursor.myBytesWritten) (cursor.endptr - cursor.writeptr)

theorem insertParts_written (parts : List (List UInt8)) (cursor : WriteCursor) :
    Written parts.flatten cursor (insertParts parts cursor) := by
  induction parts generalizing cursor with
  | nil => exact ⟨by simp [insertParts], by simp [insertParts], by simp [insertParts]⟩
  | cons part rest ih =>
    unfold insertParts insertUndoBytes
    split
    next result cursor' same =>
      split at same
      next skipped =>
        cases same
        obtain ⟨complete, storage, already⟩ :=
          ih { cursor with myBytesWritten := cursor.myBytesWritten - part.length }
        have left : (part :: rest).flatten.length - cursor.myBytesWritten =
            rest.flatten.length - (cursor.myBytesWritten - part.length) := by
          simp only [List.flatten_cons, List.length_append]
          omega
        have bytes : (part :: rest).flatten.drop cursor.myBytesWritten =
            rest.flatten.drop (cursor.myBytesWritten - part.length) := by
          rw [List.flatten_cons, List.drop_append, List.drop_eq_nil_of_le skipped, List.nil_append]
        exact ⟨by rw [complete, left], by rw [storage, bytes], by rw [already, left]⟩
      next unfinished =>
        dsimp only at same
        split at same
        · cases same
        · have whole : min (part.length - cursor.myBytesWritten)
              (cursor.endptr - cursor.writeptr) = part.length - cursor.myBytesWritten := by
            simpa using (Prod.mk.inj same).1
          have after := (Prod.mk.inj same).2
          rw [whole, List.take_of_length_le (by simp)] at after
          subst after
          obtain ⟨complete, storage, already⟩ := ih
            { storage := Lib.writeAt cursor.storage cursor.writeptr (part.drop cursor.myBytesWritten)
              writeptr := cursor.writeptr + (part.length - cursor.myBytesWritten)
              endptr := cursor.endptr
              myBytesWritten := 0
              alreadyWritten := cursor.alreadyWritten + (part.length - cursor.myBytesWritten) }
          dsimp only at complete storage already ⊢
          have left : (part :: rest).flatten.length - cursor.myBytesWritten =
              (part.length - cursor.myBytesWritten) + rest.flatten.length := by
            simp only [List.flatten_cons, List.length_append]
            omega
          have bytes : ((part :: rest).flatten.drop cursor.myBytesWritten).take
              (cursor.endptr - cursor.writeptr) = part.drop cursor.myBytesWritten ++
                rest.flatten.take (cursor.endptr -
                  (cursor.writeptr + (part.length - cursor.myBytesWritten))) := by
            rw [List.flatten_cons, List.drop_append_of_le_length (by omega), List.take_append,
              List.take_of_length_le (by rw [List.length_drop]; omega), List.length_drop, Nat.sub_sub]
          refine ⟨?_, ?_, ?_⟩
          · rw [complete, left]
            exact decide_eq_decide.mpr (by omega)
          · rw [storage, bytes, List.drop_zero, ← Lib.writeAt_append, List.length_drop]
          · rw [already, left]
            omega
    next result cursor' same =>
      split at same
      · cases same
      · dsimp only at same
        have left : part.length - cursor.myBytesWritten ≤
            (part :: rest).flatten.length - cursor.myBytesWritten := by
          simp only [List.flatten_cons, List.length_append]
          omega
        split at same
        next none =>
          cases same
          have full : cursor.endptr - cursor.writeptr = 0 := by omega
          refine ⟨?_, ?_, ?_⟩
          · exact (decide_eq_false (by omega)).symm
          · rw [full, List.take_zero, Lib.writeAt_nil]
          · rw [full, Nat.min_zero, Nat.add_zero]
        next some =>
          have short : min (part.length - cursor.myBytesWritten)
              (cursor.endptr - cursor.writeptr) ≠ part.length - cursor.myBytesWritten := by
            simpa using (Prod.mk.inj same).1
          have after := (Prod.mk.inj same).2
          have room : min (part.length - cursor.myBytesWritten) (cursor.endptr - cursor.writeptr) =
              cursor.endptr - cursor.writeptr := by omega
          rw [room] at after
          subst after
          refine ⟨?_, ?_, ?_⟩
          · exact (decide_eq_false (by omega)).symm
          · rw [List.flatten_cons, List.drop_append_of_le_length (by omega),
              List.take_append_of_le_length (by rw [List.length_drop]; omega)]
          · dsimp only
            omega

variable {startingByte : Nat} {record : UndoRecord} {urp : Nat}

theorem pageOffset_mod (blk : Nat) (inside : startingByte < blcksz) :
    (blk * blcksz + startingByte) % blcksz = startingByte := by
  rw [Nat.mul_add_mod_self_right, Nat.mod_eq_of_lt inside]

theorem pageOffset_div (blk : Nat) (inside : startingByte < blcksz) :
    (blk * blcksz + startingByte) / blcksz = blk := by
  rw [Nat.mul_comm, Nat.mul_add_div (by decide), Nat.div_eq_of_lt inside, Nat.add_zero]

/-- A page takes what it has room for. -/
structure PageAppended (flat : List UInt8) (start room already : Nat) (storage : Nat → UInt8)
    (result : Bool × WriteCursor) : Prop where
  complete : result.1 = decide (flat.length - already ≤ room)
  alreadyWritten : result.2.alreadyWritten = already + min (flat.length - already) room
  holds : Lib.Holds blcksz blockHeaderSize result.2.storage start ((flat.drop already).take room)
  before : Lib.SameBelow blcksz blockHeaderSize storage result.2.storage start
  headers : ∀ address, address % blcksz < blockHeaderSize → result.2.storage address = storage address

theorem append_page (record : UndoRecord) (storage : Nat → UInt8) (blk : Nat) (already undoLen : Nat)
    (usable : blockHeaderSize ≤ startingByte) (inside : startingByte < blcksz) :
    PageAppended (record.parts undoLen).flatten (blk * blcksz + startingByte) (blcksz - startingByte)
      already storage (record.append storage blk startingByte already undoLen) := by
  obtain ⟨complete, written, count⟩ := insertParts_written (record.parts undoLen)
    { storage
      writeptr := blk * blcksz + startingByte
      endptr := blk * blcksz + blcksz
      myBytesWritten := already
      alreadyWritten := already }
  simp only [Nat.add_sub_add_left] at complete written count
  have atPage := pageOffset_mod blk inside
  have within : (blk * blcksz + startingByte) % blcksz + (((record.parts undoLen).flatten.drop
      already).take (blcksz - startingByte)).length ≤ blcksz := by
    rw [atPage, List.length_take]
    omega
  rw [← atPage] at usable
  refine ⟨complete, count, ?_, ?_, ?_⟩
  · rw [UndoRecord.append, written]
    exact Lib.holds_writeAt header_fits usable within
  · rw [UndoRecord.append, written]
    exact Lib.sameBelow_writeAt storage _ _
  · intro address inHeader
    rw [UndoRecord.append, written]
    exact Lib.writeAt_header usable within inHeader

/-- Over pages that follow each other a record is written whole, and nothing before it changes. -/
structure Inserted (flat : List UInt8) (start already : Nat) (storage : Nat → UInt8)
    (result : (Nat → UInt8) × Nat × Bool) : Prop where
  complete : result.2.2 = true
  length : result.2.1 = flat.length
  holds : Lib.Holds blcksz blockHeaderSize result.1 start (flat.drop already)
  before : Lib.SameBelow blcksz blockHeaderSize storage result.1 start
  headers : ∀ address, address % blcksz < blockHeaderSize → result.1 address = storage address

theorem insertRecord_inserted (record : UndoRecord) (undoLen pages blk startingByte already : Nat)
    (storage : Nat → UInt8) (usable : blockHeaderSize ≤ startingByte) (inside : startingByte < blcksz)
    (progress : already ≤ (record.parts undoLen).flatten.length)
    (room : (record.parts undoLen).flatten.length - already ≤
      blcksz - startingByte + pages * (blcksz - blockHeaderSize)) :
    Inserted (record.parts undoLen).flatten (blk * blcksz + startingByte) already storage
      (insertRecord record undoLen (List.range' blk (pages + 1)) startingByte already storage) := by
  induction pages generalizing blk startingByte already storage with
  | zero =>
    obtain ⟨complete, count, holds, before, headers⟩ :=
      append_page record storage blk already undoLen usable inside
    have whole : (record.parts undoLen).flatten.length - already ≤ blcksz - startingByte := by omega
    rw [List.take_of_length_le (by rwa [List.length_drop])] at holds
    rw [decide_eq_true whole] at complete
    simp only [List.range'_succ, insertRecord]
    split
    · next cursor same =>
      rw [same] at holds before count headers
      dsimp only at count
      have counted : cursor.alreadyWritten = (record.parts undoLen).flatten.length := by omega
      exact ⟨rfl, counted, holds, before, headers⟩
    · next cursor same =>
      rw [same] at complete
      cases complete
  | succ pages ih =>
    obtain ⟨complete, count, holds, before, headers⟩ :=
      append_page record storage blk already undoLen usable inside
    rw [List.range'_succ, insertRecord]
    split
    · next cursor same =>
      rw [same] at complete holds before count headers
      have whole := of_decide_eq_true complete.symm
      rw [List.take_of_length_le (by rwa [List.length_drop])] at holds
      dsimp only at count
      have counted : cursor.alreadyWritten = (record.parts undoLen).flatten.length := by omega
      exact ⟨rfl, counted, holds, before, headers⟩
    · next cursor same =>
      rw [same] at complete holds before count headers
      have more := of_decide_eq_false complete.symm
      -- The page is full, so the rest of the record starts behind the next header.
      have resumed : cursor.alreadyWritten = already + (blcksz - startingByte) := by
        rw [count]
        omega
      have rest := ih (blk + 1) blockHeaderSize cursor.alreadyWritten cursor.storage le_rfl
        header_fits (by omega) (by rw [Nat.succ_mul] at room; omega)
      have next : Lib.plusUsable blcksz blockHeaderSize (blk * blcksz + startingByte)
          (blcksz - startingByte) = (blk + 1) * blcksz + blockHeaderSize := by
        have here : blockHeaderSize ≤ (blk * blcksz + startingByte) % blcksz := by
          rwa [pageOffset_mod blk inside]
        have step := Lib.plusUsable_nextPage header_fits here
        rwa [pageOffset_mod blk inside, pageOffset_div blk inside] at step
      have later : blk * blcksz + startingByte ≤ (blk + 1) * blcksz + blockHeaderSize := by
        rw [Nat.succ_mul]
        omega
      have taken : ((record.parts undoLen).flatten.drop already).take (blcksz - startingByte) ++
          (record.parts undoLen).flatten.drop cursor.alreadyWritten =
            (record.parts undoLen).flatten.drop already := by
        rw [resumed, ← List.drop_drop, List.take_append_drop]
      have takenLength : (((record.parts undoLen).flatten.drop already).take
          (blcksz - startingByte)).length = blcksz - startingByte := by
        rw [List.length_take, List.length_drop]
        omega
      refine ⟨rest.complete, rest.length, ?_, before.trans rest.before later, fun address inHeader =>
        (rest.headers address inHeader).trans (headers address inHeader)⟩
      rw [← taken, Lib.holds_append header_fits, takenLength, next]
      refine ⟨?_, rest.holds⟩
      apply holds.kept header_fits rest.before
      rw [takenLength, next]

theorem length_flatten_filter {Part : Type} (present : Part → Bool) (bytes : Part → List UInt8)
    (parts : List Part) : ((parts.filter present).map bytes).flatten.length =
      (parts.map fun part => if present part then (bytes part).length else 0).sum := by
  induction parts with
  | nil => rfl
  | cons part rest ih =>
    rw [List.map_cons, List.sum_cons, ← ih]
    cases selected : present part
    · rw [List.filter_cons_of_neg (by simp [selected])]
      simp
    · rw [List.filter_cons_of_pos selected]
      simp

theorem UndoRecord.present_rawdata (record : UndoRecord) :
    record.present .rawdata = (record.present .payload && decide (0 < record.payloadlen)) := rfl

/-- The sections and the length behind them take the bytes that `RecordSize` counts. -/
theorem UndoRecord.length_parts (record : UndoRecord) (undoLen : Nat)
    (short : record.present .payload = true → record.rawdata.length < 65536) :
    (record.parts undoLen).flatten.length = record.fullSize := by
  have payload : (if record.present .rawdata then record.rawdata.length else 0) =
      if record.present .payload then record.rawdata.length else 0 := by
    cases selected : record.present .payload
    · rw [record.present_rawdata, selected, Bool.false_and]
    · rw [record.present_rawdata, selected, Bool.true_and, UndoRecord.payloadlen,
        Nat.mod_eq_of_lt (short selected)]
      rcases Nat.eq_zero_or_pos record.rawdata.length with absent | present
      · simp [absent]
      · simp [present]
  rw [UndoRecord.parts, List.flatten_append, List.length_append, length_flatten_filter]
  simp only [undoSections, List.map_cons, List.map_nil, List.sum_cons, List.sum_nil, UndoRecord.bytes,
    Lib.length_leBytes, List.length_append, List.length_cons, List.length_nil, List.flatten_cons,
    List.flatten_nil, payload, UndoRecord.fullSize]
  have header : record.present .header = true := rfl
  have block : record.present .block = true := rfl
  simp only [header, block, if_true]
  cases record.present .payload
  · simp only [Bool.false_eq_true, if_false]
    omega
  · simp only [if_true]
    omega

theorem UndoRecord.Admitted.recordSize_eq (admitted : record.Admitted urp) : record.recordSize =
    record.fullSize := by
  simp only [UndoRecord.Admitted, maxBufferPerUndo, UndoRecord.recordSize, blcksz,
    blockHeaderSize] at admitted ⊢
  omega

theorem UndoRecord.fullSize_pos (record : UndoRecord) : 0 < record.fullSize := by
  unfold UndoRecord.fullSize
  omega

theorem UndoRecord.Admitted.short (admitted : record.Admitted urp)
    (selected : record.present .payload = true) : record.rawdata.length < 65536 := by
  simp only [UndoRecord.Admitted, maxBufferPerUndo, UndoRecord.fullSize, selected, if_true, blcksz,
    blockHeaderSize] at admitted
  omega

theorem UndoRecord.length_stream (admitted : record.Admitted urp) :
    record.stream.length = record.recordSize := by
  rw [UndoRecord.stream, record.length_parts _ admitted.short, admitted.recordSize_eq]

theorem findIdx_range' (first count blk : Nat) (above : first ≤ blk) (within : blk ≤ first + count) :
    (List.range' first count).findIdx (· == blk) = blk - first := by
  induction count generalizing first with
  | zero =>
    simp only [List.range'_zero, List.findIdx_nil]
    omega
  | succ count ih =>
    rw [List.range'_succ, List.findIdx_cons]
    rcases Nat.eq_or_lt_of_le above with same | above
    · simp [same]
    · have other : (first == blk) = false := by simpa using above.ne
      rw [other, cond_false, ih (first + 1) above (by omega)]
      omega

theorem sameBelow_zeroPage (storage : Nat → UInt8) {blk limit : Nat}
    (start : limit ≤ blk * blcksz + blockHeaderSize) :
    Lib.SameBelow blcksz blockHeaderSize storage (zeroPage storage blk) limit := by
  intro address below usable
  have elsewhere : address / blcksz ≠ blk := by
    intro same
    have parts := Nat.div_add_mod' address blcksz
    rw [same] at parts
    omega
  rw [zeroPage, if_neg elsewhere]

namespace VectorState

/-- Getting the buffer of a block that is in the vector's list or next to it. -/
theorem getUndoBufidx_spec (state : VectorState) {first count blk limit : Nat} (zero : Bool)
    (buffers : state.ubuffers = List.range' first count) (above : first ≤ blk)
    (within : blk ≤ first + count)
    (zeroed : zero = true → limit ≤ blk * blcksz + blockHeaderSize) :
    (∃ more, (state.getUndoBufidx blk zero).2.ubuffers = List.range' first more ∧ count ≤ more ∧
      blk < first + more) ∧
    Lib.SameBelow blcksz blockHeaderSize state.storage (state.getUndoBufidx blk zero).2.storage
      limit := by
  refine ⟨?_, ?_⟩
  · have list : (state.getUndoBufidx blk zero).2.ubuffers =
        if blk - first < count then List.range' first count else List.range' first count ++ [blk] := by
      simp only [getUndoBufidx, buffers, findIdx_range' first count blk above within, List.length_range']
      split <;> rfl
    rw [list]
    split
    next known => exact ⟨count, rfl, le_rfl, by omega⟩
    next new =>
      have here : blk = first + count := by omega
      refine ⟨count + 1, ?_, Nat.le_succ count, by omega⟩
      rw [here, List.range'_concat, Nat.one_mul]
  · unfold getUndoBufidx
    dsimp only
    split
    · exact Lib.SameBelow.refl _ _
    · dsimp only
      split
      · exact sameBelow_zeroPage state.storage (zeroed (by assumption))
      · exact Lib.SameBelow.refl _ _

/-- The vector's list reaches over a record: its first block is in the list, and the pages from
there to the end of the list have room for it. -/
structure Reaches (first count urp size : Nat) : Prop where
  above : first ≤ urp / blcksz
  within : urp / blcksz < first + count
  room : size ≤ blcksz - urp % blcksz + (first + count - urp / blcksz - 1) * (blcksz - blockHeaderSize)

theorem getBuffers_spec (undoSize startingByte turns : Nat) (state : VectorState)
    {first count : Nat} (blk limit : Nat) (zero : Bool) (curSize : Nat)
    (buffers : state.ubuffers = List.range' first count) (above : first ≤ blk)
    (within : blk ≤ first + count) (inside : startingByte < blcksz) (bounded : undoSize ≤ 40000)
    (unfinished : curSize < undoSize) (enough : undoSize ≤ curSize + turns)
    (near : limit ≤ (blk + 1) * blcksz)
    (zeroed : zero = true → limit ≤ blk * blcksz + blockHeaderSize) :
    (∃ more, (getBuffers undoSize startingByte turns state blk zero curSize).ubuffers =
        List.range' first more ∧ count ≤ more ∧ blk < first + more ∧
        undoSize ≤ (if curSize = 0 then blcksz - startingByte else
          curSize + (blcksz - blockHeaderSize)) +
          (first + more - blk - 1) * (blcksz - blockHeaderSize)) ∧
    Lib.SameBelow blcksz blockHeaderSize state.storage
      (getBuffers undoSize startingByte turns state blk zero curSize).storage limit := by
  induction turns generalizing state count blk zero curSize with
  | zero => omega
  | succ turns ih =>
    simp only [getBuffers]
    generalize zeroHere : (if blk % undosegSize = 0 then false else zero) = zero'
    have zeroed' : zero' = true → limit ≤ blk * blcksz + blockHeaderSize := by
      intro set
      apply zeroed
      rw [← zeroHere] at set
      split at set
      · cases set
      · exact set
    obtain ⟨⟨listed, list, longer, reached⟩, same⟩ :=
      state.getUndoBufidx_spec zero' buffers above within zeroed'
    generalize sized : (if curSize = 0 then blcksz - startingByte else
      curSize + (blcksz - blockHeaderSize)) = grown
    have growth : 0 < grown ∧ grown < 65536 ∧ curSize < grown := by
      simp only [blcksz, blockHeaderSize] at inside sized
      split at sized <;> omega
    rw [Nat.mod_eq_of_lt growth.2.1]
    split
    next more =>
      obtain ⟨⟨total, list', longer', reached', room⟩, same'⟩ :=
        ih (state.getUndoBufidx blk zero').2 (blk + 1) true grown list (by omega) (by omega) more
          (by omega) (by rw [Nat.succ_mul]; omega) (fun _ => by omega)
      rw [if_neg growth.1.ne'] at room
      refine ⟨⟨total, list', longer.trans longer', by omega, ?_⟩, same.trans same' le_rfl⟩
      have pages : first + total - blk - 1 = first + total - (blk + 1) - 1 + 1 := by omega
      rw [pages, Nat.succ_mul]
      omega
    next done =>
      exact ⟨⟨listed, list, longer, reached, by omega⟩, same⟩

/-- Preparing a record leaves a list of blocks that reaches over it. -/
theorem prepare_spec (state : VectorState) (record : UndoRecord) {first count urp : Nat}
    (buffers : state.ubuffers = List.range' first count) (above : first ≤ urp / blcksz)
    (within : urp / blcksz ≤ first + count)
    (admitted : record.Admitted urp) :
    (state.prepare record urp).1 = { record, urp, bufidx := urp / blcksz - first } ∧
    (∃ more, (state.prepare record urp).2.ubuffers = List.range' first more ∧ count ≤ more ∧
      Reaches first more urp record.recordSize) ∧
    Lib.SameBelow blcksz blockHeaderSize state.storage (state.prepare record urp).2.storage urp := by
  have inside := Nat.mod_lt urp (show 0 < blcksz by decide)
  have parts := Nat.div_add_mod' urp blcksz
  simp only [UndoRecord.Admitted, maxBufferPerUndo] at admitted
  have size := UndoRecord.Admitted.recordSize_eq admitted
  have positive := record.fullSize_pos
  obtain ⟨⟨more, list, longer, reached, room⟩, same⟩ :=
    getBuffers_spec record.recordSize (urp % blcksz) record.recordSize state
      (urp / blcksz) urp (urp % blcksz == blockHeaderSize) 0 buffers above within inside
      (by simp only [size, blcksz, blockHeaderSize] at admitted ⊢; omega) (by omega) (by omega)
      (by rw [Nat.succ_mul]; omega) (fun set => by rw [beq_iff_eq] at set; omega)
  rw [if_pos rfl] at room
  refine ⟨?_, ⟨more, list, longer, above, reached, room⟩, same⟩
  simp only [prepare, buffers, findIdx_range' first count _ above within]

end VectorState

/-- Where `PrepareUndoRecord` puts the records of a vector whose list of blocks starts at `first`. -/
def preparedAt (first : Nat) : Nat → List UndoRecord → List PreparedRecord
  | _, [] => []
  | urp, record :: rest =>
    { record, urp, bufidx := urp / blcksz - first } ::
      preparedAt first (offsetPlusUsableBytes urp record.recordSize) rest

theorem VectorState.Reaches.next {first count urp size : Nat} (reaches : Reaches first count urp size)
    (usable : blockHeaderSize ≤ urp % blcksz) :
    first ≤ offsetPlusUsableBytes urp size / blcksz ∧
      offsetPlusUsableBytes urp size / blcksz ≤ first + count := by
  obtain ⟨above, within, room⟩ := reaches
  rw [offsetPlusUsableBytes, Lib.plusUsable, Lib.offsetOfUsable_div header_fits, Lib.usableByteNo]
  have pages : urp / blcksz + 1 + (first + count - urp / blcksz - 1) = first + count := by omega
  refine ⟨above.trans ?_, ?_⟩
  · rw [Nat.le_div_iff_mul_le (by decide)]
    omega
  · have total : urp % blcksz - blockHeaderSize + urp / blcksz * (blcksz - blockHeaderSize) + size ≤
        (first + count) * (blcksz - blockHeaderSize) := by
      have inside := Nat.mod_lt urp (show 0 < blcksz by decide)
      rw [← pages, Nat.add_mul, Nat.add_mul, Nat.one_mul]
      omega
    calc _ ≤ (first + count) * (blcksz - blockHeaderSize) / (blcksz - blockHeaderSize) :=
          Nat.div_le_div_right total
      _ = first + count := Nat.mul_div_cancel _ (by decide)

theorem VectorState.Reaches.longer {first count more urp size : Nat}
    (reaches : Reaches first count urp size) (longer : count ≤ more) : Reaches first more urp size := by
  obtain ⟨above, within, room⟩ := reaches
  refine ⟨above, by omega, room.trans ?_⟩
  apply Nat.add_le_add_left
  apply Nat.mul_le_mul_right
  omega

variable (records : List UndoRecord) (storage : Nat → UInt8)

/-- Preparing a vector: where the records go, a list of blocks that reaches over all of them, and
pages that are unchanged before the first record. -/
theorem VectorState.prepareUndoRecord_spec (state : VectorState) {first count urp : Nat}
    (buffers : state.ubuffers = List.range' first count) (above : first ≤ urp / blcksz)
    (within : urp / blcksz ≤ first + count) (usable : blockHeaderSize ≤ urp % blcksz)
    (admitted : VectorAdmits records urp) :
    (state.prepareUndoRecord records urp).1 = preparedAt first urp records ∧
    (∃ more, (state.prepareUndoRecord records urp).2.ubuffers = List.range' first more ∧
      count ≤ more ∧ ∀ prepared ∈ preparedAt first urp records,
        Reaches first more prepared.urp prepared.record.recordSize) ∧
    Lib.SameBelow blcksz blockHeaderSize state.storage
      (state.prepareUndoRecord records urp).2.storage urp := by
  induction records generalizing state count urp with
  | nil => exact ⟨rfl, ⟨count, buffers, le_rfl, by simp [preparedAt]⟩, Lib.SameBelow.refl _ _⟩
  | cons record rest ih =>
    obtain ⟨fits, others⟩ := admitted
    obtain ⟨placed, ⟨more, list, longer, reaches⟩, same⟩ :=
      state.prepare_spec record buffers above within fits
    obtain ⟨above', within'⟩ := reaches.next usable
    obtain ⟨placed', ⟨total, list', longer', reaches'⟩, same'⟩ :=
      ih (state.prepare record urp).2 list above' within'
        (Lib.header_le_plusUsable_mod header_fits _ _) others
    refine ⟨?_, ⟨total, list', longer.trans longer', ?_⟩, same.trans same' ?_⟩
    · simp only [prepareUndoRecord, preparedAt, placed, placed']
    · intro prepared member
      rcases List.mem_cons.mp member with rfl | member
      · exact reaches.longer longer'
      · exact reaches' prepared member
    · exact le_offsetPlusUsableBytes usable _

/-- Inserting a record into the blocks that were prepared for it. -/
theorem PreparedRecord.insert_inserted {record : UndoRecord} {first count urp : Nat}
    (reaches : VectorState.Reaches first count urp record.recordSize)
    (usable : blockHeaderSize ≤ urp % blcksz) (admitted : record.Admitted urp) :
    Inserted record.stream urp 0 storage
      (PreparedRecord.insert { record, urp, bufidx := urp / blcksz - first } (List.range' first count)
        storage) := by
  obtain ⟨above, within, room⟩ := reaches
  have inside := Nat.mod_lt urp (show 0 < blcksz by decide)
  have length := UndoRecord.length_stream admitted
  have blocks : (List.range' first count).drop (urp / blcksz - first) =
      List.range' (urp / blcksz) (first + count - urp / blcksz - 1 + 1) := by
    rw [List.drop_range']
    congr 1 <;> omega
  have written := insertRecord_inserted record record.recordSize (first + count - urp / blcksz - 1)
    (urp / blcksz) (urp % blcksz) 0 storage usable inside (Nat.zero_le _) (by
      rw [Nat.sub_zero]
      exact length.trans_le room)
  rw [Nat.div_add_mod' urp blcksz] at written
  rw [PreparedRecord.insert, blocks]
  exact written

/-- Inserting the records of a vector, one behind the other. -/
theorem insertPreparedUndo_holds {first count urp : Nat} (usable : blockHeaderSize ≤ urp % blcksz)
    (admitted : VectorAdmits records urp)
    (reaches : ∀ prepared ∈ preparedAt first urp records,
      VectorState.Reaches first count prepared.urp prepared.record.recordSize) :
    (∀ prepared ∈ preparedAt first urp records, Lib.Holds blcksz blockHeaderSize
      (insertPreparedUndo (List.range' first count) storage (preparedAt first urp records))
      prepared.urp prepared.record.stream) ∧
    Lib.SameBelow blcksz blockHeaderSize storage
      (insertPreparedUndo (List.range' first count) storage (preparedAt first urp records)) urp := by
  induction records generalizing urp storage with
  | nil => exact ⟨by simp [preparedAt], Lib.SameBelow.refl _ _⟩
  | cons record rest ih =>
    obtain ⟨fits, others⟩ := admitted
    have written := PreparedRecord.insert_inserted storage
      (reaches { record, urp, bufidx := urp / blcksz - first } List.mem_cons_self) usable fits
    have length := UndoRecord.length_stream fits
    obtain ⟨holds, same⟩ := ih _ (Lib.header_le_plusUsable_mod header_fits urp record.recordSize)
      others (fun prepared member => reaches prepared (List.mem_cons_of_mem _ member))
    refine ⟨?_, written.before.trans same (le_offsetPlusUsableBytes usable _)⟩
    intro prepared member
    rcases List.mem_cons.mp member with rfl | member
    · apply written.holds.kept header_fits same
      rw [List.drop_zero, length]
    · exact holds prepared member

end OpenGauss.Undo
