import OpenGauss.Undo.UndoRecordRead

namespace OpenGauss.Undo

variable {record : UndoRecord} {storage : Nat → UInt8} {memory : UndoSection → List UInt8}

theorem Known.next {part : UndoSection} {rest : List UndoSection} {memory memory' : UndoSection → List UInt8}
    (known : Known record (part :: rest) memory)
    (here : record.present part = true → memory' part = record.bytes part)
    (others : ∀ other, other ≠ part → memory' other = memory other) : Known record rest memory' := by
  refine ⟨?_, ?_⟩
  · intro done
    by_cases now : UndoSection.header = part
    · subst now
      exact here rfl
    · rw [others _ now]
      exact known.header (by simp [now, done])
  · intro done selected
    by_cases now : UndoSection.payload = part
    · subst now
      exact here selected
    · rw [others _ now]
      exact known.payload (by simp [now, done]) selected

theorem readParts_page (record : UndoRecord) (storage : Nat → UInt8) (copyData isUndoSplited : Bool)
    (short : record.present .payload = true → record.rawdata.length < 65536)
    (sections : List UndoSection) (cursor : ReadCursor) (suffix : sections <:+ undoSections)
    (known : Known record sections cursor.memory)
    (partly : record.PartlyRead sections cursor.myBytesRead cursor.memory)
    (fresh : isUndoSplited = false → cursor.myBytesRead = 0)
    (visible : Lib.Visible storage cursor.readptr (cursor.endptr - cursor.readptr)
      ((record.flat sections).drop cursor.myBytesRead)) :
    PageRead record sections cursor (readParts storage copyData isUndoSplited sections cursor) := by
  induction sections generalizing cursor with
  | nil => exact ⟨fun _ => ⟨rfl, trivial⟩, fun absent => absurd absent (by simp), fun _ _ => rfl⟩
  | cons part rest ih =>
    have suffix' : rest <:+ undoSections := (List.suffix_cons part rest).trans suffix
    obtain ⟨-, last, new⟩ := undoSections_suffix suffix
    rw [readParts, known.present suffix]
    cases selected : record.present part
    · rw [if_neg (by decide)]
      rw [UndoRecord.PartlyRead, if_neg (by simp [selected])] at partly
      rw [UndoRecord.flat_cons, if_neg (by simp [selected])] at visible
      have known' : Known record rest cursor.memory :=
        known.next (by simp [selected]) (fun _ _ => rfl)
      exact (ih cursor suffix' known' partly.2 fresh visible).skip selected new partly.1
    · rw [if_pos rfl]
      rw [UndoRecord.PartlyRead, if_pos selected] at partly
      rw [UndoRecord.flat_cons, if_pos selected, List.drop_append] at visible
      obtain ⟨filled, partly⟩ := partly
      split
      next points =>
        -- Only the payload can be left in the page, and nothing follows it.
        have raw : part = .rawdata := by
          cases part <;> first | rfl | exact absurd points (by simp [ReadCursor.pointsIntoPage])
        subst raw
        rw [last rfl] at known ⊢
        simp only [ReadCursor.pointsIntoPage, Bool.and_eq_true, Bool.not_eq_true',
          decide_eq_true_iff] at points
        have payload : record.present .payload = true := by
          rw [record.present_rawdata, Bool.and_eq_true] at selected
          exact selected.1
        have length : cursor.payloadlen = record.rawdata.length := by
          rw [known.payloadlen payload, UndoRecord.payloadlen, Nat.mod_eq_of_lt (short payload)]
        have unread := fresh points.1.2
        rw [unread, List.drop_zero] at visible
        have bytes : Lib.readAt storage cursor.readptr cursor.payloadlen = record.rawdata := by
          rw [length] at points ⊢
          rw [visible.left.readAt points.2 le_rfl]
          exact List.take_length
        have flat : (record.flat [.rawdata]).length = record.rawdata.length := by
          rw [UndoRecord.flat_cons, if_pos selected, UndoRecord.flat_nil, List.append_nil]
          rfl
        refine ⟨fun _ => ⟨rfl, ?_⟩, fun few => ?_, ?_⟩
        · rw [UndoRecord.PartlyRead, if_pos selected]
          exact ⟨UndoRecord.filled_of_eq _ (by simp [readParts, bytes, UndoRecord.bytes]), trivial⟩
        · rw [flat] at few
          rw [length] at points
          omega
        · intro other outside
          exact Function.update_of_ne (by simpa using outside) _ _
      next copied =>
        obtain ⟨filled', length, others, same⟩ := allocate_filled known suffix selected short filled
        have front := visible.left
        have back := visible.right
        rw [List.length_drop] at back
        have my : (cursor.allocate part).myBytesRead = cursor.myBytesRead := by rw [same]
        have readptr : (cursor.allocate part).readptr = cursor.readptr := by rw [same]
        have endptr : (cursor.allocate part).endptr = cursor.endptr := by rw [same]
        have already : (cursor.allocate part).alreadyRead = cursor.alreadyRead := by rw [same]
        rw [← my] at filled'
        rcases Nat.lt_or_ge (cursor.endptr - cursor.readptr)
          ((record.bytes part).length - cursor.myBytesRead) with few | fits
        · have read := readUndoBytes_part storage filled' length
            (by rw [my, readptr, endptr]; exact front) (by rw [my, readptr, endptr]; exact few)
          have page := PageRead.stop read same selected new others few partly
          obtain ⟨incomplete, -, -, -⟩ := read
          generalize readUndoBytes storage part (cursor.allocate part) = result at *
          obtain ⟨done, after⟩ := result
          cases incomplete
          exact page
        · have read := readUndoBytes_whole storage filled' length
            (by rw [my, readptr, endptr]; exact front) (by rw [my, readptr, endptr]; exact fits)
          obtain ⟨complete, memory, readptr', endptr', my', already'⟩ := read
          generalize readUndoBytes storage part (cursor.allocate part) = result at *
          obtain ⟨done, after⟩ := result
          cases complete
          dsimp only at memory readptr' endptr' my' already' ⊢
          have here : after.memory part = record.bytes part := by
            rw [memory, Function.update_self]
          have kept : ∀ other, other ≠ part → after.memory other = cursor.memory other := by
            intro other different
            rw [memory, Function.update_of_ne different, others other different]
          rw [my, readptr] at readptr'
          rw [my, already] at already'
          rw [my] at my'
          rw [endptr] at endptr'
          apply PageRead.cons _ selected new here kept fits readptr' endptr' my' already'
          apply ih after suffix' (known.next (fun _ => here) kept)
          · rw [my']
            apply partly.congr
            intro other member
            exact kept other (fun equal => new (equal ▸ member))
          · intro whole
            rw [my', fresh whole, Nat.zero_sub]
          · rw [my', readptr', endptr', ← Nat.sub_sub]
            exact back

theorem partlyRead_init (record : UndoRecord) : record.PartlyRead undoSections 0 (UndoRecord.bytes {}) := by
  have fixed : ∀ part : UndoSection, part ≠ .rawdata → record.Filled part 0 (UndoRecord.bytes {}) := by
    intro part notRaw
    refine ⟨rfl, Or.inl ?_⟩
    cases part <;> first | exact absurd rfl notRaw | simp [UndoRecord.bytes]
  have raw : record.Filled .rawdata 0 (UndoRecord.bytes {}) := ⟨rfl, Or.inr ⟨rfl, rfl, rfl⟩⟩
  have every : ∀ sections : List UndoSection, record.PartlyRead sections 0 (UndoRecord.bytes {}) := by
    intro sections
    induction sections with
    | nil => trivial
    | cons part rest ih =>
      unfold UndoRecord.PartlyRead
      split
      · rw [Nat.zero_sub]
        refine ⟨?_, ih⟩
        by_cases isRaw : part = .rawdata
        · rw [isRaw]
          exact raw
        · exact fixed part isRaw
      · exact ⟨rfl, ih⟩
  exact every undoSections

theorem readUndoRecord_page (record : UndoRecord) (copyData : Bool) (blk : Nat) {startingByte already : Nat}
    (short : record.present .payload = true → record.rawdata.length < 65536)
    (usable : blockHeaderSize ≤ startingByte) (inside : startingByte < blcksz)
    (partly : record.PartlyRead undoSections already memory)
    (holds : Lib.Holds blcksz blockHeaderSize storage (blk * blcksz + startingByte)
      ((record.flat undoSections).drop already)) :
    PageRead record undoSections
      { memory
        readptr := blk * blcksz + startingByte
        endptr := blk * blcksz + blcksz
        myBytesRead := already
        alreadyRead := already }
      (readUndoRecord storage copyData memory blk startingByte already) := by
  have visible := holds.visible header_fits (by rwa [pageOffset_mod blk inside])
  rw [pageOffset_mod blk inside] at visible
  apply readParts_page record storage copyData _ short undoSections _ (List.suffix_refl _)
  · exact ⟨fun outside => absurd (by decide) outside, fun outside => absurd (by decide) outside⟩
  · exact partly
  · intro whole
    simpa using whole
  · dsimp only
    rw [Nat.add_sub_add_left]
    exact visible

theorem ofMemory_whdr (read : memory .header = record.bytes .header) :
    (UndoRecord.ofMemory memory).whdr = record.whdr := by
  simp [UndoRecord.ofMemory, read, UndoRecord.bytes, List.append_assoc, List.drop_append]

theorem ofMemory_wblk (read : memory .block = record.bytes .block) :
    (UndoRecord.ofMemory memory).wblk = record.wblk := by
  simp [UndoRecord.ofMemory, read, UndoRecord.bytes, List.append_assoc, List.drop_append]

theorem ofMemory_stored (record : UndoRecord)
    (short : record.present .payload = true → record.rawdata.length < 65536)
    (whole : record.PartlyRead undoSections (record.flat undoSections).length memory) :
    UndoRecord.ofMemory memory = record.stored := by
  have read : ∀ part, memory part =
      if record.present part then record.bytes part else UndoRecord.bytes {} part := by
    intro part
    apply whole.whole part
    cases part <;> decide
  have whdr := ofMemory_whdr (read .header)
  have wblk := ofMemory_wblk (read .block)
  have prevurp : (UndoRecord.ofMemory memory).prevurp = record.stored.prevurp := by
    simp only [UndoRecord.ofMemory, UndoRecord.stored, read .transaction]
    split
    · simp [UndoRecord.bytes]
    · decide
  have oldxactid : (UndoRecord.ofMemory memory).oldxactid = record.stored.oldxactid := by
    simp only [UndoRecord.ofMemory, UndoRecord.stored, read .oldTd]
    split
    · simp [UndoRecord.bytes]
    · decide
  have partitionoid : (UndoRecord.ofMemory memory).partitionoid = record.stored.partitionoid := by
    simp only [UndoRecord.ofMemory, UndoRecord.stored, read .partition]
    split
    · simp [UndoRecord.bytes]
    · decide
  have tablespace : (UndoRecord.ofMemory memory).tablespace = record.stored.tablespace := by
    simp only [UndoRecord.ofMemory, UndoRecord.stored, read .tablespace]
    split
    · simp [UndoRecord.bytes]
    · decide
  have rawdata : (UndoRecord.ofMemory memory).rawdata = record.stored.rawdata := by
    simp only [UndoRecord.ofMemory, UndoRecord.stored, read .rawdata]
    have raw := record.present_rawdata
    by_cases selected : record.present .payload = true
    · rw [selected, Bool.true_and, UndoRecord.payloadlen, Nat.mod_eq_of_lt (short selected)] at raw
      rcases Nat.eq_zero_or_pos record.rawdata.length with absent | present
      · simp [raw, selected, List.eq_nil_of_length_eq_zero absent, UndoRecord.bytes]
      · simp [raw, selected, present, UndoRecord.bytes]
    · rw [Bool.not_eq_true] at selected
      rw [selected, Bool.false_and] at raw
      simp [raw, selected, UndoRecord.bytes]
  cases loaded : UndoRecord.ofMemory memory
  simp only [loaded] at whdr wblk prevurp oldxactid partitionoid tablespace rawdata
  rw [whdr, wblk, prevurp, oldxactid, partitionoid, tablespace, rawdata]
  rfl

theorem UndoRecord.stream_eq (record : UndoRecord) :
    record.stream = record.flat undoSections ++ Lib.leBytes 2 record.recordSize := by
  rw [stream, parts, List.flatten_append, flat, List.flatten_cons, List.flatten_nil, List.append_nil]

/-- `Load` at the place of a record that the pages hold. -/
theorem load_stored (copyData : Bool) {urp : Nat} (admitted : record.Admitted urp)
    (usable : blockHeaderSize ≤ urp % blcksz)
    (holds : Lib.Holds blcksz blockHeaderSize storage urp record.stream) :
    UndoRecord.load storage copyData urp = some record.stored := by
  have inside := Nat.mod_lt urp (show 0 < blcksz by decide)
  have length := UndoRecord.length_stream admitted
  rw [UndoRecord.stream_eq, List.length_append, Lib.length_leBytes, admitted.recordSize_eq] at length
  rw [UndoRecord.stream_eq, Lib.holds_append header_fits] at holds
  have short := admitted.short
  simp only [UndoRecord.Admitted, maxBufferPerUndo] at admitted
  have first := readUndoRecord_page record copyData (urp / blcksz) short usable inside
    (partlyRead_init record) (by rw [Nat.div_add_mod' urp blcksz, List.drop_zero]; exact holds.1)
  rw [UndoRecord.load, loadLoop, if_neg (Nat.not_lt_zero _)]
  rcases Nat.lt_or_ge (blcksz - urp % blcksz) (record.flat undoSections).length with more | fits
  · obtain ⟨stopped, count, partly⟩ := first.part (by dsimp only; rw [Nat.add_sub_add_left]; omega)
    generalize readUndoRecord storage copyData (UndoRecord.bytes {}) (urp / blcksz) (urp % blcksz) 0 =
      page at *
    obtain ⟨done, cursor⟩ := page
    cases stopped
    dsimp only at count partly ⊢
    rw [Nat.add_sub_add_left, Nat.zero_add] at count partly
    rw [loadLoop, if_neg (by omega), count]
    -- The record goes on behind the header of the next page and ends there.
    have rest : Lib.Holds blcksz blockHeaderSize storage ((urp / blcksz + 1) * blcksz + blockHeaderSize)
        ((record.flat undoSections).drop (blcksz - urp % blcksz)) := by
      have split := holds.1
      rw [← List.take_append_drop (blcksz - urp % blcksz) (record.flat undoSections),
        Lib.holds_append header_fits, List.length_take, Nat.min_eq_left more.le,
        Lib.plusUsable_nextPage header_fits usable] at split
      exact split.2
    have second := readUndoRecord_page record copyData (urp / blcksz + 1) short le_rfl
      header_fits partly rest
    obtain ⟨complete, whole⟩ := second.whole (by dsimp only; rw [Nat.add_sub_add_left]; omega)
    generalize readUndoRecord storage copyData cursor.memory (urp / blcksz + 1) blockHeaderSize
      (blcksz - urp % blcksz) = page at *
    obtain ⟨done, cursor'⟩ := page
    cases complete
    rw [Option.map_some, ofMemory_stored record short whole]
  · obtain ⟨complete, whole⟩ := first.whole (by dsimp only; rw [Nat.add_sub_add_left]; omega)
    generalize readUndoRecord storage copyData (UndoRecord.bytes {}) (urp / blcksz) (urp % blcksz) 0 =
      page at *
    obtain ⟨done, cursor⟩ := page
    cases complete
    rw [Option.map_some, ofMemory_stored record short whole]

theorem preparedAt_records (first urp : Nat) (records : List UndoRecord) :
    (preparedAt first urp records).map PreparedRecord.record = records := by
  induction records generalizing urp with
  | nil => rfl
  | cons record rest ih => rw [preparedAt, List.map_cons, ih]

/-- The records of a vector are where usable bytes begin, and the vector admits each of them there. -/
theorem preparedAt_admitted {first urp : Nat} {records : List UndoRecord}
    (usable : blockHeaderSize ≤ urp % blcksz) (admitted : VectorAdmits records urp) :
    ∀ prepared ∈ preparedAt first urp records, blockHeaderSize ≤ prepared.urp % blcksz ∧
      prepared.record.Admitted prepared.urp ∧ prepared.bufidx = prepared.urp / blcksz - first := by
  induction records generalizing urp with
  | nil => simp [preparedAt]
  | cons record rest ih =>
    intro prepared member
    rcases List.mem_cons.mp member with rfl | member
    · exact ⟨usable, admitted.1, rfl⟩
    · exact ih (Lib.header_le_plusUsable_mod header_fits _ _) admitted.2 prepared member

/-- What a written vector comes to: its records are placed behind each other, and the pages hold
them. -/
theorem writeVector_spec (storage : Nat → UInt8) (pinned : List Nat) (records : List UndoRecord)
    (start : Nat) (usable : blockHeaderSize ≤ start % blcksz)
    (admits : VectorAdmits (records.map UndoRecord.setUInfo) start) :
    let written := writeVector storage pinned records start
    written.1 = preparedAt (start / blcksz) start (records.map UndoRecord.setUInfo) ∧
    (∃ count, written.2.1.ubuffers = List.range' (start / blcksz) count ∧
      ∀ entry ∈ written.1, VectorState.Reaches (start / blcksz) count entry.urp entry.record.recordSize) ∧
    (∀ entry ∈ written.1, Lib.Holds blcksz blockHeaderSize written.2.2 entry.urp entry.record.stream) ∧
    Lib.SameBelow blcksz blockHeaderSize storage written.2.2 start := by
  have absent : ({ storage, pinned } : VectorState).ubuffers = List.range' (start / blcksz) 0 := rfl
  obtain ⟨places, ⟨count, buffers, -, reaches⟩, same⟩ :=
    VectorState.prepareUndoRecord_spec (records.map UndoRecord.setUInfo) { storage, pinned } absent
      le_rfl le_rfl usable admits
  obtain ⟨holds, same'⟩ := insertPreparedUndo_holds (records.map UndoRecord.setUInfo)
    (VectorState.prepareUndoRecord { storage, pinned } (records.map UndoRecord.setUInfo) start).2.storage
    usable admits reaches
  simp only [writeVector, places, buffers]
  exact ⟨trivial, ⟨count, rfl, reaches⟩, holds, same.trans same' le_rfl⟩

/-- Writing a vector of undo records and loading them: for any pages and any records that the
vector admits, the bytes written for each record are `RecordSize` many and outside the page headers,
and `Load` at its pointer gives back the sections that its flags select. -/
theorem undoRecord_roundTrip (storage : Nat → UInt8) (pinned : List Nat) (records : List UndoRecord)
    (start : Nat) (usable : blockHeaderSize ≤ start % blcksz)
    (admits : VectorAdmits (records.map UndoRecord.setUInfo) start) :
    let written := writeVector storage pinned records start
    written.1.map PreparedRecord.record = records.map UndoRecord.setUInfo ∧
    ∀ entry ∈ written.1,
      (∀ before, (entry.insert written.2.1.ubuffers before).2 = (entry.record.recordSize, true) ∧
        ∀ address, address % blcksz < blockHeaderSize →
          (entry.insert written.2.1.ubuffers before).1 address = before address) ∧
      ∀ copyData, UndoRecord.load written.2.2 copyData entry.urp = some entry.record.stored := by
  obtain ⟨places, ⟨count, buffers, reaches⟩, holds, -⟩ :=
    writeVector_spec storage pinned records start usable admits
  intro written
  refine ⟨by rw [places, preparedAt_records], ?_⟩
  intro entry member
  rw [places] at member
  obtain ⟨here, fits, index⟩ := preparedAt_admitted usable admits entry member
  rw [← places] at member
  obtain ⟨record, urp, bufidx⟩ := entry
  dsimp only at here fits index
  subst index
  refine ⟨?_, ?_⟩
  · intro before
    have inserted := PreparedRecord.insert_inserted before (reaches _ member) here fits
    rw [buffers]
    refine ⟨Prod.ext ?_ inserted.complete, inserted.headers⟩
    exact inserted.length.trans (UndoRecord.length_stream fits)
  · intro copyData
    exact load_stored copyData fits here (holds _ member)

/-- A record with every section, written so that the page ends inside its header. -/
def straddlingRecord : UndoRecord where
  whdr := ⟨77, 1, 16400, 16401, 3, 0x6B⟩
  wblk := ⟨4096, 9, 5⟩
  prevurp := 2048
  oldxactid := 41
  partitionoid := 16402
  tablespace := 1663
  rawdata := [1, 2, 3, 4, 5, 6]

theorem undoRecord_roundTrip_straddling :
    VectorAdmits ([straddlingRecord, straddlingRecord].map UndoRecord.setUInfo) 8180 ∧
      UndoRecord.load (writeVector (fun _ => 0) [] [straddlingRecord, straddlingRecord] 8180).2.2
        false 8180 = some straddlingRecord := by
  have admits : VectorAdmits ([straddlingRecord, straddlingRecord].map UndoRecord.setUInfo) 8180 := by
    decide
  have whole := undoRecord_roundTrip (fun _ => 0) [] [straddlingRecord, straddlingRecord] 8180
    (by decide) admits
  exact ⟨admits, (whole.2 ⟨straddlingRecord, 8180, 0⟩ List.mem_cons_self).2 false⟩

/-- The loop of `GetPrevRecordLen`. The turn that goes back a page leaves `pageOffset` at `BLCKSZ`,
so the next one reads the last byte of that page. -/
def readBack (storage : Nat → UInt8) : Nat → Nat → Nat → List UInt8 → List UInt8
  | 0, _, _, prevLen => prevLen
  | byteToRead + 1, blk, pageOffset, prevLen =>
    if blockHeaderSize ≤ pageOffset - 1 then
      readBack storage byteToRead blk (pageOffset - 1) (storage (blk * blcksz + (pageOffset - 1)) :: prevLen)
    else
      readBack storage byteToRead (blk - 1) (blcksz - 1)
        (storage ((blk - 1) * blcksz + (blcksz - 1)) :: prevLen)

/-- `GetPrevRecordLen`; `none` is the `PANIC` on a length of zero. -/
def getPrevRecordLen (storage : Nat → UInt8) (currUrp : Nat) : Option Nat :=
  let precRecLen := Lib.leNat (readBack storage 2 (currUrp / blcksz) (currUrp % blcksz) [])
  let precRecLen :=
    if (currUrp % blcksz + 18446744073709551616 - blockHeaderSize) % 18446744073709551616 < precRecLen then
      (precRecLen + blockHeaderSize) % 65536
    else precRecLen
  if precRecLen = 0 then none else some precRecLen

def getPrevUrp (storage : Nat → UInt8) (currUrp : Nat) : Option Nat :=
  (getPrevRecordLen storage currUrp).map (currUrp - ·)

def UndoRecord.prevUrp (record : UndoRecord) (storage : Nat → UInt8) (currUrp : Nat) : Option Nat :=
  if record.prevurp ≠ 0 then some record.prevurp.toNat else getPrevUrp storage currUrp

/-- A `URecVector` that is about to be written. -/
structure UndoVector where
  records : List UndoRecord
  /-- The blocks that the thread still has pinned. -/
  pinned : List Nat

/-- The undo of a transaction: the zone with its pages, and the transaction's slot. -/
structure TransactionUndo where
  zone : UndoZone
  slot : TransactionSlot
  storage : Nat → UInt8

namespace TransactionUndo

/-- What an operation does to them: the records are prepared and inserted, then the insert pointer
and the slot follow. -/
def append (log : TransactionUndo) (vector : UndoVector) : TransactionUndo :=
  let sizes := (vector.records.map UndoRecord.setUInfo).map UndoRecord.recordSize
  let pending := pendingUndo log.slot.xactId log.zone.insertURecPtr sizes
  let zone := prepareUndoMeta log.zone pending
  { zone
    slot := log.slot.update pending.firstRecord zone.insertURecPtr
    storage := (writeVector log.storage vector.pinned vector.records log.zone.insertURecPtr).2.2 }

/-- The pointers of the records, in the order in which they are inserted. -/
def insertedUrps : TransactionUndo → List UndoVector → List Nat
  | _, [] => []
  | log, vector :: rest =>
    (writeVector log.storage vector.pinned vector.records log.zone.insertURecPtr).1.map
      PreparedRecord.urp ++ insertedUrps (log.append vector) rest

variable (log : TransactionUndo) (sizeofUndoRecord sizeofURecVector : Nat)

/-- The loop of `FetchUndoRecordRange` in an undo worker: the records of a batch and where the next
batch starts, 0 if there is none. -/
def fetchLoop (endUrp : Nat) (maxUndoApplySize : Int) : Nat → Nat → Nat →
    Option (List (Nat × UndoRecord) × Nat)
  | 0, _, _ => none
  | turns + 1, currUrp, totalSize =>
    if log.zone.checkUndoRecordValid 0 false currUrp ≠ .normal then some ([], 0)
    else
      match UndoRecord.load log.storage true currUrp with
      | none => none
      | some urec =>
        if currUrp = endUrp then some ([(currUrp, urec)], 0)
        else
          match urec.prevUrp log.storage currUrp with
          | none => none
          | some prev =>
            if prev = 0 then some ([(currUrp, urec)], 0)
            else
              let totalSize := totalSize + (sizeofUndoRecord + urec.rawdata.length) % 65536
              if maxUndoApplySize ≤ totalSize then some ([(currUrp, urec)], prev)
              else
                (fetchLoop endUrp maxUndoApplySize turns prev totalSize).map fun (batch, next) =>
                  ((currUrp, urec) :: batch, next)

def fetchUndoRecordRange (turns startUrp endUrp : Nat) (maxUndoApplySize : Int) :
    Option (List (Nat × UndoRecord) × Nat) :=
  log.fetchLoop sizeofUndoRecord endUrp maxUndoApplySize turns startUrp sizeofURecVector

/-- The loop of `VerifyAndDoUndoActions`: the records it goes through. An empty batch is an
error. -/
def undoActions (fetchTurns toUrecptr : Nat) (undoApplySize : Int) : Nat → Nat →
    Option (List (Nat × UndoRecord))
  | 0, _ => none
  | turns + 1, urecPtr =>
    if urecPtr = 0 then some []
    else
      match log.fetchUndoRecordRange sizeofUndoRecord sizeofURecVector fetchTurns urecPtr toUrecptr
        undoApplySize with
      | none => none
      | some ([], _) => none
      | some (batch, next) =>
        (undoActions fetchTurns toUrecptr undoApplySize turns next).map (batch ++ ·)

/-- Rolling back what a slot records: from the record before its end to its start. -/
def rollbackSlot (turns : Nat) (undoApplySize : Int) : Option (List (Nat × UndoRecord)) :=
  (getPrevUrp log.storage log.slot.endUndoPtr).bind fun fromUrecptr =>
    log.undoActions sizeofUndoRecord sizeofURecVector turns log.slot.startUndoPtr undoApplySize turns
      fromUrecptr

end TransactionUndo

end OpenGauss.Undo
