import OpenGauss.Undo.UndoRecordLoad
import OpenGauss.Undo.ZoneBackend

namespace OpenGauss.Undo

/-- The byte before a usable position, with the page header stepped over. -/
theorem usable_pred (start count : Nat) :
    let here := Lib.plusUsable blcksz blockHeaderSize start (count + 1)
    let before := Lib.plusUsable blcksz blockHeaderSize start count
    (blockHeaderSize ≤ here % blcksz - 1 →
      before / blcksz = here / blcksz ∧ before % blcksz = here % blcksz - 1) ∧
    (¬ blockHeaderSize ≤ here % blcksz - 1 →
      before / blcksz = here / blcksz - 1 ∧ before % blcksz = blcksz - 1) := by
  simp only [Lib.plusUsable, Lib.offsetOfUsable_mod header_fits, ← Nat.add_assoc,
    Lib.offsetOfUsable_div header_fits]
  generalize Lib.usableByteNo blcksz blockHeaderSize start + count = byteNo
  simp only [blcksz, blockHeaderSize]
  constructor
  · intro inside
    constructor <;> omega
  · intro crossing
    constructor <;> omega

/-- Reading back gives the bytes before a position. -/
theorem readBack_eq (storage : Nat → UInt8) (start count below : Nat) (prevLen : List UInt8) :
    let here := Lib.plusUsable blcksz blockHeaderSize start (below + count)
    readBack storage count (here / blcksz) (here % blcksz) prevLen = (List.range count).map (fun index =>
        storage (Lib.plusUsable blcksz blockHeaderSize start (below + index))) ++ prevLen := by
  induction count generalizing prevLen with
  | zero => rfl
  | succ count ih =>
    have step := usable_pred start (below + count)
    have address := Nat.div_add_mod' (Lib.plusUsable blcksz blockHeaderSize start (below + count)) blcksz
    dsimp only at ih step ⊢
    rw [← Nat.add_assoc, readBack, List.range_succ, List.map_append, List.append_assoc]
    split
    next inside =>
      rw [← (step.1 inside).1, ← (step.1 inside).2, address, ih]
      rfl
    next crossing =>
      rw [← (step.2 crossing).1, ← (step.2 crossing).2, address, ih]
      rfl

variable {record : UndoRecord} {start : Nat} {records : List UndoRecord}

theorem UndoRecord.admitted_of_short (urp : Nat)
    (short : record.fullSize ≤ blcksz - blockHeaderSize) : record.Admitted urp := by
  have inside := Nat.mod_lt urp (show 0 < blcksz by decide)
  simp only [UndoRecord.Admitted, maxBufferPerUndo]
  omega

/-- Subtracting a length, and one page header if the page before is entered, undoes stepping over
it. -/
theorem stepBack_eq {urp size : Nat} (usable : blockHeaderSize ≤ urp % blcksz) (positive : 0 < size)
    (short : size ≤ blcksz - blockHeaderSize) :
    let stop := Lib.plusUsable blcksz blockHeaderSize urp size
    (if (stop % blcksz + 18446744073709551616 - blockHeaderSize) % 18446744073709551616 < size then
      (size + blockHeaderSize) % 65536 else size) = stop - urp := by
  have here := Lib.offsetOfUsable_usableByteNo header_fits usable
  simp only [Lib.plusUsable, Lib.offsetOfUsable_mod header_fits]
  generalize Lib.usableByteNo blcksz blockHeaderSize urp = byteNo at here ⊢
  rw [← here]
  simp only [Lib.offsetOfUsable_eq header_fits]
  split
  next crossing =>
    simp only [blcksz, blockHeaderSize] at short crossing ⊢
    omega
  next inside =>
    simp only [blcksz, blockHeaderSize] at short inside ⊢
    omega

/-- The length behind a record leads back to where it starts. -/
theorem getPrevUrp_eq {storage : Nat → UInt8} {urp : Nat} (usable : blockHeaderSize ≤ urp % blcksz)
    (short : record.fullSize ≤ blcksz - blockHeaderSize)
    (holds : Lib.Holds blcksz blockHeaderSize storage urp record.stream) :
    getPrevUrp storage (offsetPlusUsableBytes urp record.recordSize) = some urp := by
  have admitted := UndoRecord.admitted_of_short urp short
  have size := admitted.recordSize_eq
  have length := UndoRecord.length_stream admitted
  have trailer : record.recordSize = (record.flat undoSections).length + 2 := by
    rw [← length, UndoRecord.stream_eq, List.length_append, Lib.length_leBytes]
  have fits : record.recordSize < 65536 := Nat.mod_lt _ (by decide)
  have bytes : (List.range 2).map (fun index => storage (Lib.plusUsable blcksz blockHeaderSize urp
      ((record.flat undoSections).length + index))) = Lib.leBytes 2 record.recordSize := by
    rw [UndoRecord.stream_eq, Lib.holds_append header_fits] at holds
    apply List.ext_getElem
    · simp
    · intro index low high
      rw [List.getElem_map, List.getElem_range, ← Lib.plusUsable_plusUsable header_fits]
      exact holds.2 index _ (List.getElem?_eq_getElem high)
  have read := readBack_eq storage urp 2 (record.flat undoSections).length []
  rw [← trailer, bytes, List.append_nil] at read
  have value : Lib.leNat (Lib.leBytes 2 record.recordSize) = record.recordSize :=
    Lib.leNat_leBytes fits
  have positive := record.fullSize_pos
  rw [← size] at positive short
  have after := Lib.lt_plusUsable header_fits usable positive
  have back := stepBack_eq usable positive short
  simp only [getPrevUrp, getPrevRecordLen, offsetPlusUsableBytes, read, value, back]
  rw [if_neg (by omega), Option.map_some]
  congr 1
  omega

/-- Where records that are written from `start` on end. -/
def recordsEnd (start : Nat) (records : List UndoRecord) : Nat :=
  records.foldl (fun urp record => offsetPlusUsableBytes urp record.recordSize) start

def recordUrps : Nat → List UndoRecord → List Nat
  | _, [] => []
  | urp, record :: rest => urp :: recordUrps (offsetPlusUsableBytes urp record.recordSize) rest

@[simp] theorem recordsEnd_nil (start : Nat) : recordsEnd start [] = start := rfl

theorem recordsEnd_cons (start : Nat) (record : UndoRecord) (rest : List UndoRecord) :
    recordsEnd start (record :: rest) = recordsEnd (offsetPlusUsableBytes start record.recordSize) rest := by
  rw [recordsEnd, List.foldl_cons, recordsEnd]

theorem recordsEnd_append (start : Nat) (front back : List UndoRecord) :
    recordsEnd start (front ++ back) = recordsEnd (recordsEnd start front) back :=
  List.foldl_append

theorem recordUrps_append (start : Nat) (front back : List UndoRecord) : recordUrps start (front ++ back) =
      recordUrps start front ++ recordUrps (recordsEnd start front) back := by
  induction front generalizing start with
  | nil => rfl
  | cons record rest ih => simp only [List.cons_append, recordUrps, ih]; rfl

theorem length_recordUrps (start : Nat) (records : List UndoRecord) :
    (recordUrps start records).length = records.length := by
  induction records generalizing start with
  | nil => rfl
  | cons record rest ih => rw [recordUrps, List.length_cons, ih, List.length_cons]

theorem recordsEnd_usable (usable : blockHeaderSize ≤ start % blcksz) (records : List UndoRecord) :
    blockHeaderSize ≤ recordsEnd start records % blcksz := by
  induction records generalizing start with
  | nil => exact usable
  | cons record rest ih => exact ih (offsetPlusUsableBytes_usable start record.recordSize)

theorem le_recordsEnd (usable : blockHeaderSize ≤ start % blcksz) (records : List UndoRecord) :
    start ≤ recordsEnd start records := by
  induction records generalizing start with
  | nil => exact le_rfl
  | cons record rest ih =>
    exact (le_offsetPlusUsableBytes usable _).trans (ih (offsetPlusUsableBytes_usable _ _))

/-- The records of a vector are prepared where they follow each other. -/
theorem preparedAt_urps (first urp : Nat) (records : List UndoRecord) :
    (preparedAt first urp records).map PreparedRecord.urp = recordUrps urp records := by
  induction records generalizing urp with
  | nil => rfl
  | cons record rest ih => rw [preparedAt, List.map_cons, ih]; rfl

theorem mem_preparedAt (first urp : Nat) (front : List UndoRecord) (record : UndoRecord)
    (back : List UndoRecord) :
    ∃ entry ∈ preparedAt first urp (front ++ record :: back),
      entry.record = record ∧ entry.urp = recordsEnd urp front := by
  induction front generalizing urp with
  | nil => exact ⟨_, List.mem_cons_self, rfl, rfl⟩
  | cons before rest ih =>
    obtain ⟨entry, member, same⟩ := ih (offsetPlusUsableBytes urp before.recordSize)
    exact ⟨entry, List.mem_cons_of_mem _ member, same⟩

theorem vectorAdmits_of_short (urp : Nat)
    (short : ∀ record ∈ records, record.fullSize ≤ blcksz - blockHeaderSize) :
    VectorAdmits records urp := by
  induction records generalizing urp with
  | nil => trivial
  | cons record rest ih =>
    refine ⟨UndoRecord.admitted_of_short urp (short record List.mem_cons_self), ?_⟩
    exact ih _ fun other member => short other (List.mem_cons_of_mem record member)

theorem recordsEnd_eq (urp : Nat) (record : UndoRecord) (rest : List UndoRecord) :
    recordsEnd urp (record :: rest) =
      offsetPlusUsableBytes urp ((record :: rest).map UndoRecord.recordSize).sum := by
  induction rest generalizing urp record with
  | nil => simp [recordsEnd]
  | cons next rest ih =>
    rw [recordsEnd_cons, ih, offsetPlusUsableBytes, offsetPlusUsableBytes, offsetPlusUsableBytes,
      Lib.plusUsable_plusUsable header_fits, List.map_cons, List.sum_cons, List.map_cons,
      List.sum_cons, List.map_cons, List.sum_cons]

theorem pendingUndo_recordsEnd (xid urp : Nat) (filled : records ≠ []) :
    offsetPlusUsableBytes (pendingUndo xid urp (records.map UndoRecord.recordSize)).lastRecord
      (pendingUndo xid urp (records.map UndoRecord.recordSize)).lastRecordSize =
        recordsEnd urp records := by
  obtain ⟨record, rest, rfl⟩ := List.exists_cons_of_ne_nil filled
  rw [pendingUndo_end xid urp (by simp), recordsEnd_eq]

namespace TransactionUndo

/-- The transaction has written these records from `start` on, and all of them are still there. -/
structure Wrote (start : Nat) (records : List UndoRecord) (log : TransactionUndo) : Prop where
  insert : log.zone.insertURecPtr = recordsEnd start records
  kept : log.zone.forceDiscardURecPtr ≤ start
  holds : ∀ front record back, records = front ++ record :: back →
    Lib.Holds blcksz blockHeaderSize log.storage (recordsEnd start front) record.stream
  short : ∀ record ∈ records, record.fullSize ≤ blcksz - blockHeaderSize
  slotStart : log.slot.startUndoPtr = if records = [] then 0 else start
  slotEnd : records ≠ [] → log.slot.endUndoPtr = recordsEnd start records

variable {start : Nat} {records : List UndoRecord} {log : TransactionUndo}

theorem Wrote.append (usable : blockHeaderSize ≤ start % blcksz) (wrote : log.Wrote start records)
    (vector : UndoVector) (nonempty : vector.records ≠ [])
    (short : ∀ record ∈ vector.records, record.setUInfo.fullSize ≤ blcksz - blockHeaderSize) :
    (log.append vector).Wrote start (records ++ vector.records.map UndoRecord.setUInfo) := by
  have usableHere : blockHeaderSize ≤ log.zone.insertURecPtr % blcksz := by
    rw [wrote.insert]
    exact recordsEnd_usable usable records
  have some' : vector.records.map UndoRecord.setUInfo ≠ [] := by simpa using nonempty
  have short' : ∀ record ∈ vector.records.map UndoRecord.setUInfo,
      record.fullSize ≤ blcksz - blockHeaderSize := by
    intro record member
    obtain ⟨plain, listed, rfl⟩ := List.mem_map.mp member
    exact short plain listed
  obtain ⟨places, -, holds, same⟩ := writeVector_spec log.storage vector.pinned vector.records
    log.zone.insertURecPtr usableHere (vectorAdmits_of_short _ short')
  have insert : (log.append vector).zone.insertURecPtr =
      recordsEnd start (records ++ vector.records.map UndoRecord.setUInfo) := by
    rw [recordsEnd_append, ← wrote.insert]
    exact pendingUndo_recordsEnd _ _ some'
  have older : ∀ front record back, records = front ++ record :: back →
      Lib.Holds blcksz blockHeaderSize (log.append vector).storage (recordsEnd start front)
        record.stream := by
    intro front record back split
    have fits := UndoRecord.admitted_of_short (recordsEnd start front)
      (wrote.short record (by rw [split]; simp))
    apply (wrote.holds front record back split).kept header_fits same
    rw [UndoRecord.length_stream fits, wrote.insert, split, List.append_cons, recordsEnd_append,
      recordsEnd_append]
    exact le_recordsEnd (offsetPlusUsableBytes_usable _ _) back
  have newer : ∀ front record back, vector.records.map UndoRecord.setUInfo = front ++ record :: back →
      Lib.Holds blcksz blockHeaderSize (log.append vector).storage
        (recordsEnd start (records ++ front)) record.stream := by
    intro front record back split
    obtain ⟨entry, member, rfl, place⟩ := mem_preparedAt (log.zone.insertURecPtr / blcksz)
      log.zone.insertURecPtr front record back
    rw [← split, ← places] at member
    rw [recordsEnd_append, ← wrote.insert, ← place]
    exact holds entry member
  refine ⟨insert, wrote.kept, ?_, ?_, ?_, ?_⟩
  · intro front record back split
    rcases List.append_eq_append_iff.mp split with ⟨rest, rfl, inVector⟩ | ⟨rest, before, tail⟩
    · exact newer rest record back inVector
    · cases rest with
      | nil =>
        rw [List.append_nil] at before
        rw [← before, ← List.append_nil records]
        exact newer [] record back tail.symm
      | cons first rest =>
        obtain ⟨rfl, -⟩ := List.cons.inj tail
        exact older front record rest before
  · intro record member
    rcases List.mem_append.mp member with old | new
    · exact wrote.short record old
    · exact short' record new
  · have slot : (log.append vector).slot.startUndoPtr =
        if log.slot.startUndoPtr = 0 then log.zone.insertURecPtr else log.slot.startUndoPtr := rfl
    have filled : records ++ vector.records.map UndoRecord.setUInfo ≠ [] := by simp [nonempty]
    have startPos : start ≠ 0 := by
      rintro rfl
      exact absurd usable (by decide)
    rw [slot, wrote.slotStart, if_neg filled]
    by_cases empty : records = []
    · rw [if_pos empty, if_pos rfl, wrote.insert, empty]
      rfl
    · rw [if_neg empty, if_neg startPos]
  · intro _
    exact insert

/-- What a transaction wrote in a run of vectors. -/
theorem Wrote.run (usable : blockHeaderSize ≤ start % blcksz) (vectors : List UndoVector)
    (wrote : log.Wrote start records) (filled : ∀ vector ∈ vectors, vector.records ≠ [])
    (short : ∀ vector ∈ vectors, ∀ record ∈ vector.records, record.setUInfo.fullSize ≤
      blcksz - blockHeaderSize) :
    (vectors.foldl TransactionUndo.append log).Wrote start
      (records ++ vectors.flatMap fun vector => vector.records.map UndoRecord.setUInfo) ∧
    log.insertedUrps vectors = recordUrps (recordsEnd start records)
      (vectors.flatMap fun vector => vector.records.map UndoRecord.setUInfo) := by
  induction vectors generalizing records log with
  | nil => exact ⟨by simpa using wrote, rfl⟩
  | cons vector rest ih =>
    have here := wrote.append usable vector (filled vector List.mem_cons_self)
      (short vector List.mem_cons_self)
    obtain ⟨after, urps⟩ := ih here (fun other member => filled other (List.mem_cons_of_mem _ member))
      (fun other member => short other (List.mem_cons_of_mem _ member))
    rw [List.flatMap_cons]
    refine ⟨by rwa [← List.append_assoc], ?_⟩
    have usableHere := recordsEnd_usable usable records
    have short' : ∀ record ∈ vector.records.map UndoRecord.setUInfo,
        record.fullSize ≤ blcksz - blockHeaderSize := by
      intro record member
      obtain ⟨plain, listed, rfl⟩ := List.mem_map.mp member
      exact short vector List.mem_cons_self plain listed
    obtain ⟨places, -⟩ := writeVector_spec log.storage vector.pinned vector.records
      (recordsEnd start records) usableHere (vectorAdmits_of_short _ short')
    rw [insertedUrps, urps, wrote.insert, places, preparedAt_urps, recordUrps_append, recordsEnd_append]

/-- What the records say about their predecessors: nothing, or where it starts. -/
def Linked (start : Nat) (records : List UndoRecord) : Prop :=
  ∀ front last record back, records = front ++ last :: record :: back →
    record.stored.prevurp = 0 ∨ record.stored.prevurp.toNat = recordsEnd start front

section Walk

variable {start : Nat} {records : List UndoRecord} {log : TransactionUndo}

section

variable (wrote : log.Wrote start records)

include wrote
variable {front back : List UndoRecord} {record : UndoRecord}

theorem Wrote.admitted (split : records = front ++ record :: back) :
    record.Admitted (recordsEnd start front) :=
  UndoRecord.admitted_of_short _ (wrote.short record (by rw [split]; simp))

variable (usable : blockHeaderSize ≤ start % blcksz)
include usable
variable (split : records = front ++ record :: back)
include split

theorem Wrote.lt_next :
    recordsEnd start front < recordsEnd start (front ++ [record]) := by
  have size := (wrote.admitted split).recordSize_eq
  have positive := record.fullSize_pos
  rw [recordsEnd_append]
  exact Lib.lt_plusUsable header_fits (recordsEnd_usable usable front) (by omega)

theorem Wrote.before_end :
    recordsEnd start front < log.zone.insertURecPtr := by
  apply (wrote.lt_next usable split).trans_le
  rw [wrote.insert, split, List.append_cons front record back, recordsEnd_append _ (front ++ [record])]
  exact le_recordsEnd (recordsEnd_usable usable _) back

/-- A record of the transaction is loaded as it was written. -/
theorem Wrote.load :
    log.zone.checkUndoRecordValid 0 false (recordsEnd start front) = .normal ∧
      UndoRecord.load log.storage true (recordsEnd start front) = some record.stored := by
  refine ⟨?_, ?_⟩
  · rw [UndoZone.checkUndoRecordValid, if_neg (wrote.before_end usable split).not_ge,
      if_pos (wrote.kept.trans (le_recordsEnd usable front))]
  · exact load_stored true (wrote.admitted split) (recordsEnd_usable usable front)
      (wrote.holds front record back split)

/-- From the record after it, a record is found by the length behind it. -/
theorem Wrote.getPrevUrp :
    Undo.getPrevUrp log.storage (recordsEnd start (front ++ [record])) = some (recordsEnd start front) := by
  rw [recordsEnd_append]
  exact getPrevUrp_eq (recordsEnd_usable usable front) (wrote.short record (by rw [split]; simp))
    (wrote.holds front record back split)

end

theorem recordUrps_concat (start : Nat) (front : List UndoRecord) (record : UndoRecord) :
    (recordUrps start (front ++ [record])).reverse =
      recordsEnd start front :: (recordUrps start front).reverse := by
  rw [recordUrps_append]
  simp [recordUrps]

section

variable (wrote : log.Wrote start records) (usable : blockHeaderSize ≤ start % blcksz)
  (linked : Linked start records)

include wrote usable linked

/-- `Prevurp` of every record but the first. -/
theorem Wrote.prevUrp {front back : List UndoRecord} {last record : UndoRecord}
    (split : records = front ++ last :: record :: back) :
    record.stored.prevUrp log.storage (recordsEnd start (front ++ [last])) =
      some (recordsEnd start front) := by
  unfold UndoRecord.prevUrp
  split
  next named =>
    rcases linked front last record back split with absent | same
    · exact absurd absent named
    · rw [same]
  next unnamed => exact wrote.getPrevUrp usable split

/-- A batch goes back record by record, to the first one or to where the next batch starts. -/
theorem Wrote.fetchLoop (sizeofUndoRecord : Nat) (maxUndoApplySize : Int)
    (front : List UndoRecord) (record : UndoRecord) (back : List UndoRecord) (total turns : Nat)
    (split : records = front ++ record :: back) (enough : front.length < turns) :
    ∃ batch next, log.fetchLoop sizeofUndoRecord start maxUndoApplySize turns
        (recordsEnd start front) total = some (batch, next) ∧ batch ≠ [] ∧
      ((next = 0 ∧ batch.map Prod.fst = (recordUrps start (front ++ [record])).reverse) ∨
        ∃ earlier first rest, front = earlier ++ first :: rest ∧ next = recordsEnd start earlier ∧
          batch.map Prod.fst ++ (recordUrps start (earlier ++ [first])).reverse =
            (recordUrps start (front ++ [record])).reverse) := by
  obtain ⟨turns, rfl⟩ : ∃ more, turns = more + 1 := ⟨turns - 1, by omega⟩
  induction front using List.reverseRecOn generalizing record back total turns with
  | nil =>
    obtain ⟨valid, loaded⟩ := wrote.load usable split
    refine ⟨[(start, record.stored)], 0, ?_, by simp, Or.inl ⟨rfl, rfl⟩⟩
    rw [TransactionUndo.fetchLoop]
    simp only [recordsEnd_nil] at valid loaded ⊢
    rw [valid, loaded]
    simp
  | append_singleton front last ih =>
    obtain ⟨valid, loaded⟩ := wrote.load usable split
    have split' : records = front ++ last :: record :: back := by
      rw [split, List.append_assoc, List.singleton_append]
    have later : recordsEnd start (front ++ [last]) ≠ start := by
      exact ((le_recordsEnd usable front).trans_lt (wrote.lt_next usable split')).ne'
    have positive : recordsEnd start front ≠ 0 := by
      intro zero
      have := recordsEnd_usable usable front
      rw [zero] at this
      exact absurd this (by decide)
    have prev := wrote.prevUrp usable linked split'
    rw [TransactionUndo.fetchLoop, if_neg (by simp [valid]), loaded]
    dsimp only
    rw [if_neg later, prev]
    dsimp only
    rw [if_neg positive]
    split
    next full =>
      refine ⟨_, _, rfl, by simp, Or.inr ⟨front, last, [], rfl, rfl, ?_⟩⟩
      rw [recordUrps_concat start (front ++ [last])]
      rfl
    next room =>
      rw [List.length_append, List.length_singleton] at enough
      obtain ⟨turns, rfl⟩ : ∃ more, turns = more + 1 := ⟨turns - 1, by omega⟩
      obtain ⟨batch, next, fetched, -, visited⟩ := ih last (record :: back) _ split' turns (by omega)
      refine ⟨(recordsEnd start (front ++ [last]), record.stored) :: batch, next,
        by rw [fetched]; rfl, by simp, ?_⟩
      rw [List.map_cons, recordUrps_concat start (front ++ [last])]
      rcases visited with ⟨absent, all⟩ | ⟨earlier, first, rest, before, place, joined⟩
      · exact Or.inl ⟨absent, by rw [all]⟩
      · refine Or.inr ⟨earlier, first, rest ++ [last], by rw [before]; simp, place, ?_⟩
        rw [List.cons_append, joined]

/-- The batches together go back over all records. -/
theorem Wrote.undoActions (sizeofUndoRecord sizeofURecVector fetchTurns : Nat)
    (undoApplySize : Int) (front : List UndoRecord) (record : UndoRecord) (back : List UndoRecord)
    (turns : Nat) (split : records = front ++ record :: back) (fetches : front.length < fetchTurns)
    (enough : front.length + 1 < turns) :
    (log.undoActions sizeofUndoRecord sizeofURecVector fetchTurns start undoApplySize turns
      (recordsEnd start front)).map (List.map Prod.fst) =
        some (recordUrps start (front ++ [record])).reverse := by
  induction measured : front.length using Nat.strong_induction_on generalizing front record back turns with
  | _ count ih =>
    obtain ⟨turns, rfl⟩ : ∃ more, turns = more + 1 := ⟨turns - 1, by omega⟩
    have positive : recordsEnd start front ≠ 0 := by
      intro zero
      have := recordsEnd_usable usable front
      rw [zero] at this
      exact absurd this (by decide)
    obtain ⟨batch, next, fetched, present, visited⟩ := wrote.fetchLoop usable linked sizeofUndoRecord
      undoApplySize front record back sizeofURecVector fetchTurns split fetches
    rw [TransactionUndo.undoActions, if_neg positive, fetchUndoRecordRange, fetched]
    cases batch with
    | nil => exact absurd rfl present
    | cons entry batch =>
      dsimp only
      rw [Option.map_map]
      rcases visited with ⟨rfl, all⟩ | ⟨earlier, first, rest, before, rfl, joined⟩
      · obtain ⟨turns, rfl⟩ : ∃ more, turns = more + 1 := ⟨turns - 1, by omega⟩
        rw [TransactionUndo.undoActions, if_pos rfl, Option.map_some, ← all]
        simp
      · have length : earlier.length < count := by
          rw [← measured, before, List.length_append, List.length_cons]
          omega
        have later := ih earlier.length length earlier first (rest ++ record :: back) turns
          (by rw [split, before]; simp) (by omega) (by omega) rfl
        obtain ⟨others, walked, urps⟩ := Option.map_eq_some_iff.mp later
        rw [walked, Option.map_some, ← joined, ← urps]
        simp

end

end Walk

/-- Rolling back a transaction: for every run of vectors that it appended to a zone, from any place
on and with any limit on a batch, the walk from the end in its slot visits the pointers of its
records in reverse order and stops at the first one, which is the start in the slot. -/
theorem undoChain_walk (log : TransactionUndo) (vectors : List UndoVector)
    (sizeofUndoRecord sizeofURecVector turns : Nat) (undoApplySize : Int)
    (fresh : log.slot.startUndoPtr = 0)
    (usable : blockHeaderSize ≤ log.zone.insertURecPtr % blcksz)
    (kept : log.zone.forceDiscardURecPtr ≤ log.zone.insertURecPtr)
    (started : vectors ≠ []) (filled : ∀ vector ∈ vectors, vector.records ≠ [])
    (short : ∀ vector ∈ vectors, ∀ record ∈ vector.records,
      record.setUInfo.fullSize ≤ blcksz - blockHeaderSize)
    (linked : Linked log.zone.insertURecPtr
      (vectors.flatMap fun vector => vector.records.map UndoRecord.setUInfo))
    (enough : (log.insertedUrps vectors).length < turns) :
    let after := vectors.foldl append log
    (log.insertedUrps vectors).head? = Option.some after.slot.startUndoPtr ∧
    (after.rollbackSlot sizeofUndoRecord sizeofURecVector turns undoApplySize).map
      (List.map Prod.fst) = Option.some (log.insertedUrps vectors).reverse := by
  have begun : log.Wrote log.zone.insertURecPtr [] :=
    ⟨rfl, kept, fun front record back split => absurd split (by simp), by simp, fresh,
      fun nonempty => absurd rfl nonempty⟩
  obtain ⟨wrote, urps⟩ := begun.run usable vectors filled short
  rw [List.nil_append] at wrote
  rw [recordsEnd_nil] at urps
  rw [urps] at enough ⊢
  intro after
  generalize listed : (vectors.flatMap fun vector => vector.records.map UndoRecord.setUInfo) =
    records at *
  have nonempty : records ≠ [] := by
    obtain ⟨vector, rest, rfl⟩ := List.exists_cons_of_ne_nil started
    rw [← listed, List.flatMap_cons]
    simp [filled vector List.mem_cons_self]
  refine ⟨?_, ?_⟩
  · have slotStart := wrote.slotStart
    rw [if_neg nonempty] at slotStart
    rw [slotStart]
    obtain ⟨record, rest, rfl⟩ := List.exists_cons_of_ne_nil nonempty
    rfl
  · obtain ⟨front, record, rfl⟩ := (List.eq_nil_or_concat' records).resolve_left nonempty
    have slotStart := wrote.slotStart
    rw [if_neg nonempty] at slotStart
    have length : (recordUrps log.zone.insertURecPtr (front ++ [record])).length = front.length + 1 := by
      rw [← List.length_reverse, recordUrps_concat, List.length_cons, List.length_reverse, length_recordUrps]
    have last : getPrevUrp after.storage after.slot.endUndoPtr =
        Option.some (recordsEnd log.zone.insertURecPtr front) := by
      rw [wrote.slotEnd nonempty]
      exact wrote.getPrevUrp usable rfl
    rw [rollbackSlot, last, Option.bind_some, slotStart]
    exact wrote.undoActions usable linked sizeofUndoRecord sizeofURecVector turns undoApplySize front
      record [] turns rfl (by omega) (by omega)

/-- A transaction that starts twelve bytes before the end of a page. -/
def edgeLog : TransactionUndo where
  zone := { insertURecPtr := 8180, forceDiscardURecPtr := 24 }
  slot := { xactId := 77 }
  storage := fun _ => 0

def edgeVectors : List UndoVector :=
  [{ records := [{ whdr := ⟨77, 1, 16400, 16401, 3, 0x01⟩, rawdata := [1, 2, 3] }], pinned := [] },
    { records := [{ whdr := ⟨77, 2, 16400, 16401, 3, 0x01⟩, oldxactid := 41 }, {}], pinned := [1] }]

theorem undoChain_walk_edge :
    ((edgeVectors.foldl append edgeLog).rollbackSlot 200 40 4 100).map (List.map Prod.fst) =
      some [8295, 8247, 8180] := by
  have plain : ∀ record ∈ edgeVectors.flatMap fun vector => vector.records.map UndoRecord.setUInfo,
      record.stored.prevurp = 0 := by decide
  have walk := undoChain_walk edgeLog edgeVectors 200 40 4 100 rfl (by decide) (by decide) (by decide)
    (by decide) (by decide)
    (fun front last record back split => Or.inl (plain record (by rw [split]; simp))) (by decide)
  exact walk.2

end TransactionUndo

end OpenGauss.Undo
