import OpenGauss.Undo.UndoRecordWrite

namespace OpenGauss.Undo

namespace UndoRecord

variable (record : UndoRecord)

/-- What can be read back of a record: the sections that it does not have are as `Init2DefVal`
leaves them. -/
def stored : UndoRecord where
  whdr := record.whdr
  wblk := record.wblk
  prevurp := if record.present .transaction then record.prevurp else 0
  oldxactid := if record.present .oldTd then record.oldxactid else 2
  partitionoid := if record.present .partition then record.partitionoid else 0
  tablespace := if record.present .tablespace then record.tablespace else 0
  rawdata := if record.present .payload then record.rawdata else []

def flat (sections : List UndoSection) : List UInt8 :=
  ((sections.filter record.present).map record.bytes).flatten

@[simp] theorem flat_nil : record.flat [] = [] := rfl

theorem flat_cons (part : UndoSection) (rest : List UndoSection) :
    record.flat (part :: rest) =
      if record.present part then record.bytes part ++ record.flat rest else record.flat rest := by
  cases selected : record.present part
  · rw [flat, List.filter_cons_of_neg (by simp [selected])]
    rfl
  · rw [flat, List.filter_cons_of_pos selected, List.map_cons, List.flatten_cons]
    rfl

/-- A section of which the first bytes are read. The payload has no memory before its length is
known. -/
structure Filled (part : UndoSection) (count : Nat) (memory : UndoSection → List UInt8) : Prop where
  read : (memory part).take count = (record.bytes part).take count
  length : (memory part).length = (record.bytes part).length ∨
    part = .rawdata ∧ count = 0 ∧ memory part = []

/-- Sections of which the first bytes are read, in their order; those that the record does not have
are as before. -/
def PartlyRead : List UndoSection → Nat → (UndoSection → List UInt8) → Prop
  | [], _, _ => True
  | part :: rest, count, memory =>
    if record.present part then
      record.Filled part count memory ∧ PartlyRead rest (count - (record.bytes part).length) memory
    else memory part = bytes {} part ∧ PartlyRead rest count memory

variable {record}

variable {part : UndoSection} {count : Nat} {memory : UndoSection → List UInt8}
  {sections : List UndoSection}

theorem Filled.whole (filled : record.Filled part count memory) (all : (record.bytes part).length ≤ count) :
    memory part = record.bytes part := by
  obtain ⟨read, length⟩ := filled
  rw [List.take_of_length_le all] at read
  rcases length with same | ⟨rfl, rfl, absent⟩
  · rwa [List.take_of_length_le (by omega)] at read
  · rw [absent, ← read, List.take_zero]

theorem filled_of_eq (count : Nat) (same : memory part = record.bytes part) : record.Filled part count memory :=
  ⟨by rw [same], Or.inl (by rw [same])⟩

theorem PartlyRead.congr {memory memory' : UndoSection → List UInt8}
    (partly : record.PartlyRead sections count memory) (same : ∀ part ∈ sections, memory' part = memory part) :
    record.PartlyRead sections count memory' := by
  induction sections generalizing count with
  | nil => trivial
  | cons part rest ih =>
    have here := same part List.mem_cons_self
    have others := fun other member => same other (List.mem_cons_of_mem part member)
    unfold PartlyRead at partly ⊢
    split at partly
    next selected =>
      rw [if_pos selected]
      obtain ⟨⟨read, length⟩, partly⟩ := partly
      exact ⟨⟨by rw [here, read], by rw [here]; exact length⟩, ih partly others⟩
    next absent =>
      rw [if_neg absent]
      exact ⟨here.trans partly.1, ih partly.2 others⟩

/-- When everything is read, the memory is that of the record. -/
theorem PartlyRead.whole (partly : record.PartlyRead sections (record.flat sections).length memory) :
    ∀ part ∈ sections,
      memory part = if record.present part then record.bytes part else bytes {} part := by
  induction sections with
  | nil => simp
  | cons first rest ih =>
    rw [PartlyRead, flat_cons] at partly
    intro part member
    cases selected : record.present first
    · simp only [selected, Bool.false_eq_true, if_false] at partly
      rcases List.mem_cons.mp member with rfl | member
      · rw [selected, partly.1]
        rfl
      · exact ih partly.2 part member
    · simp only [selected, if_true, List.length_append, Nat.add_sub_cancel_left] at partly
      rcases List.mem_cons.mp member with rfl | member
      · rw [selected, if_pos rfl]
        exact partly.1.whole (Nat.le_add_right _ _)
      · exact ih partly.2 part member

theorem bytes_header_uinfo (record : UndoRecord) :
    (record.bytes .header).getD 21 0 = record.whdr.uinfo := by
  simp [bytes, List.getD_eq_getElem?_getD]

theorem leNat_bytes_payload (record : UndoRecord) :
    Lib.leNat (record.bytes .payload) = record.payloadlen :=
  Lib.leNat_leBytes (Nat.mod_lt record.rawdata.length (show 0 < 256 ^ 2 by decide))

end UndoRecord

structure ReadWhole (record : UndoRecord) (part : UndoSection) (cursor : ReadCursor)
    (result : Bool × ReadCursor) : Prop where
  complete : result.1 = true
  memory : result.2.memory = Function.update cursor.memory part (record.bytes part)
  readptr : result.2.readptr =
    cursor.readptr + ((record.bytes part).length - cursor.myBytesRead)
  endptr : result.2.endptr = cursor.endptr
  myBytesRead : result.2.myBytesRead = cursor.myBytesRead - (record.bytes part).length
  alreadyRead : result.2.alreadyRead =
    cursor.alreadyRead + ((record.bytes part).length - cursor.myBytesRead)

variable {record : UndoRecord} {part : UndoSection} {cursor : ReadCursor}

theorem readUndoBytes_whole (storage : Nat → UInt8)
    (filled : record.Filled part cursor.myBytesRead cursor.memory)
    (length : (cursor.memory part).length = (record.bytes part).length)
    (visible : Lib.Visible storage cursor.readptr (cursor.endptr - cursor.readptr)
      ((record.bytes part).drop cursor.myBytesRead))
    (fits : (record.bytes part).length - cursor.myBytesRead ≤ cursor.endptr - cursor.readptr) :
    ReadWhole record part cursor (readUndoBytes storage part cursor) := by
  simp only [readUndoBytes, length]
  split
  next already =>
    have same := filled.whole already
    exact ⟨rfl, by rw [← same, Function.update_eq_self], by dsimp only; omega, rfl, rfl,
      by dsimp only; omega⟩
  next more =>
    rw [Nat.min_eq_left fits, if_neg (by omega)]
    have rest : Lib.readAt storage cursor.readptr ((record.bytes part).length - cursor.myBytesRead) =
        (record.bytes part).drop cursor.myBytesRead := by
      rw [visible.readAt fits (by rw [List.length_drop]), List.take_of_length_le (by rw [List.length_drop])]
    have past : (cursor.memory part).drop
        (cursor.myBytesRead + ((record.bytes part).length - cursor.myBytesRead)) = [] := by
      apply List.drop_eq_nil_of_le
      omega
    refine ⟨by simp, ?_, rfl, rfl, by dsimp only; omega, rfl⟩
    dsimp only
    rw [filled.read, rest, past, List.append_nil, List.take_append_drop]

structure ReadPart (record : UndoRecord) (part : UndoSection) (cursor : ReadCursor)
    (result : Bool × ReadCursor) : Prop where
  incomplete : result.1 = false
  others : ∀ other, other ≠ part → result.2.memory other = cursor.memory other
  filled : record.Filled part (cursor.myBytesRead + (cursor.endptr - cursor.readptr)) result.2.memory
  alreadyRead : result.2.alreadyRead = cursor.alreadyRead + (cursor.endptr - cursor.readptr)

theorem readUndoBytes_part (storage : Nat → UInt8)
    (filled : record.Filled part cursor.myBytesRead cursor.memory)
    (length : (cursor.memory part).length = (record.bytes part).length)
    (visible : Lib.Visible storage cursor.readptr (cursor.endptr - cursor.readptr)
      ((record.bytes part).drop cursor.myBytesRead))
    (short : cursor.endptr - cursor.readptr < (record.bytes part).length - cursor.myBytesRead) :
    ReadPart record part cursor (readUndoBytes storage part cursor) := by
  simp only [readUndoBytes, length]
  rw [if_neg (by omega), Nat.min_eq_right short.le]
  split
  next full =>
    refine ⟨rfl, fun _ _ => rfl, ?_, ?_⟩
    · rw [full]
      exact filled
    · dsimp only
      omega
  next some =>
    have rest := visible.readAt le_rfl (by rw [List.length_drop]; omega)
    have front : ((record.bytes part).take cursor.myBytesRead ++
        ((record.bytes part).drop cursor.myBytesRead).take (cursor.endptr - cursor.readptr)) =
        (record.bytes part).take (cursor.myBytesRead + (cursor.endptr - cursor.readptr)) := by
      rw [List.take_add]
    have frontLength : ((record.bytes part).take
        (cursor.myBytesRead + (cursor.endptr - cursor.readptr))).length =
        cursor.myBytesRead + (cursor.endptr - cursor.readptr) := by
      rw [List.length_take]
      omega
    refine ⟨by simpa using short.ne, fun other different => Function.update_of_ne different _ _, ?_, rfl⟩
    refine ⟨?_, Or.inl ?_⟩
    · dsimp only
      rw [Function.update_self, filled.read, rest, front, List.take_left' frontLength]
    · dsimp only
      rw [Function.update_self, filled.read, rest, front, List.length_append, frontLength,
        List.length_drop]
      omega

theorem undoSections_suffix {rest : List UndoSection} (suffix : part :: rest <:+ undoSections) :
    (part ≠ .header → .header ∉ part :: rest) ∧ (part = .rawdata → rest = []) ∧ part ∉ rest := by
  simp only [undoSections, List.suffix_cons_iff, List.cons.injEq, List.suffix_nil] at suffix
  rcases suffix with ⟨rfl, rfl⟩ | ⟨rfl, rfl⟩ | ⟨rfl, rfl⟩ | ⟨rfl, rfl⟩ | ⟨rfl, rfl⟩ | ⟨rfl, rfl⟩ |
    ⟨rfl, rfl⟩ | ⟨rfl, rfl⟩ | none
  all_goals first | decide | cases none

/-- What a later section finds in memory of the sections before it. -/
structure Known (record : UndoRecord) (sections : List UndoSection)
    (memory : UndoSection → List UInt8) : Prop where
  header : .header ∉ sections → memory .header = record.bytes .header
  payload : .payload ∉ sections → record.present .payload = true →
    memory .payload = record.bytes .payload

theorem Known.payloadlen (known : Known record [.rawdata] cursor.memory)
    (selected : record.present .payload = true) :
    cursor.payloadlen = record.payloadlen := by
  rw [ReadCursor.payloadlen, known.payload (by decide) selected, record.leNat_bytes_payload]

section

variable {record : UndoRecord} {part : UndoSection} {rest : List UndoSection} {cursor : ReadCursor}
  (known : Known record (part :: rest) cursor.memory) (suffix : part :: rest <:+ undoSections)

include known suffix

theorem Known.present : cursor.present part = record.present part := by
  obtain ⟨later, last, -⟩ := undoSections_suffix suffix
  have flags : part ≠ .header → cursor.uinfo = record.whdr.uinfo := by
    intro different
    rw [ReadCursor.uinfo, known.header (later different), UndoRecord.bytes_header_uinfo]
  cases part
  case header => rfl
  case rawdata =>
    have flags := flags (by decide)
    rw [last rfl] at known
    have length := known.payloadlen
    simp only [ReadCursor.present, UndoRecord.present, UndoSection.present] at length ⊢
    rw [flags]
    cases selected : (record.whdr.uinfo &&& 0x01 != 0)
    · rfl
    · rw [length selected]
  all_goals
    simp only [ReadCursor.present, UndoRecord.present, UndoSection.present]
    try rw [flags (by decide)]

theorem allocate_filled (selected : record.present part = true)
    (short : record.present .payload = true → record.rawdata.length < 65536)
    (filled : record.Filled part cursor.myBytesRead cursor.memory) :
    record.Filled part cursor.myBytesRead (cursor.allocate part).memory ∧
      ((cursor.allocate part).memory part).length = (record.bytes part).length ∧
      (∀ other, other ≠ part → (cursor.allocate part).memory other = cursor.memory other) ∧
      cursor.allocate part = { cursor with memory := (cursor.allocate part).memory } := by
  by_cases raw : part = .rawdata
  · subst raw
    rw [record.present_rawdata, Bool.and_eq_true, decide_eq_true_iff] at selected
    rw [(undoSections_suffix suffix).2.1 rfl] at known
    have length : cursor.payloadlen = record.rawdata.length := by
      rw [known.payloadlen selected.1, UndoRecord.payloadlen, Nat.mod_eq_of_lt (short selected.1)]
    have positive : record.rawdata.length ≠ 0 := by
      intro absent
      rw [UndoRecord.payloadlen, absent] at selected
      exact absurd selected.2 (by decide)
    by_cases nothing : cursor.memory .rawdata = []
    · have unread : cursor.myBytesRead = 0 := by
        rcases filled.length with same | ⟨-, unread, -⟩
        · rw [nothing] at same
          exact absurd same.symm positive
        · exact unread
      simp only [ReadCursor.allocate, nothing, if_true, Function.update_self, List.length_replicate, length]
      refine ⟨⟨?_, Or.inl ?_⟩, rfl, fun other different => Function.update_of_ne different _ _, trivial⟩
      · rw [unread, List.take_zero, List.take_zero]
      · rw [Function.update_self, List.length_replicate]
        rfl
    · simp only [ReadCursor.allocate, nothing, if_false]
      refine ⟨filled, ?_, fun _ _ => trivial, trivial⟩
      rcases filled.length with same | ⟨-, -, empty⟩
      · exact same
      · exact absurd empty nothing
  · have same : cursor.allocate part = cursor := by
      cases part <;> first | rfl | exact absurd rfl raw
    rw [same]
    refine ⟨filled, ?_, fun _ _ => rfl, rfl⟩
    rcases filled.length with length | ⟨raw', -, -⟩
    · exact length
    · exact absurd raw' raw

end

/-- What one page gives of the sections of a list. -/
structure PageRead (record : UndoRecord) (sections : List UndoSection) (cursor : ReadCursor)
    (result : Bool × ReadCursor) : Prop where
  whole : (record.flat sections).length - cursor.myBytesRead ≤ cursor.endptr - cursor.readptr →
    result.1 = true ∧
      record.PartlyRead sections (record.flat sections).length result.2.memory
  part : cursor.endptr - cursor.readptr < (record.flat sections).length - cursor.myBytesRead →
    result.1 = false ∧
      result.2.alreadyRead = cursor.alreadyRead + (cursor.endptr - cursor.readptr) ∧
      record.PartlyRead sections (cursor.myBytesRead + (cursor.endptr - cursor.readptr))
        result.2.memory
  others : ∀ other ∉ sections, result.2.memory other = cursor.memory other

section

variable {record : UndoRecord} {part : UndoSection} {rest : List UndoSection}

variable {result : Bool × ReadCursor} {cursor next : ReadCursor}

theorem PageRead.skip {cursor : ReadCursor} (page : PageRead record rest cursor result)
    (absent : record.present part = false) (new : part ∉ rest)
    (unread : cursor.memory part = UndoRecord.bytes {} part) :
    PageRead record (part :: rest) cursor result := by
  have flat : record.flat (part :: rest) = record.flat rest := by
    rw [UndoRecord.flat_cons, absent, if_neg (by decide)]
  have here : result.2.memory part = UndoRecord.bytes {} part := (page.others part new).trans unread
  refine ⟨?_, ?_, ?_⟩
  · intro room
    rw [flat] at room ⊢
    refine ⟨(page.whole room).1, ?_⟩
    rw [UndoRecord.PartlyRead, if_neg (by simp [absent])]
    exact ⟨here, (page.whole room).2⟩
  · intro room
    rw [flat] at room
    obtain ⟨stopped, count, partly⟩ := page.part room
    refine ⟨stopped, count, ?_⟩
    rw [UndoRecord.PartlyRead, if_neg (by simp [absent])]
    exact ⟨here, partly⟩
  · intro other outside
    exact page.others other (fun member => outside (List.mem_cons_of_mem part member))

/-- A section that the page shows to its end, and then the others. -/
theorem PageRead.cons (page : PageRead record rest next result) (selected : record.present part = true)
    (new : part ∉ rest) (here : next.memory part = record.bytes part)
    (others : ∀ other, other ≠ part → next.memory other = cursor.memory other)
    (fits : (record.bytes part).length - cursor.myBytesRead ≤ cursor.endptr - cursor.readptr)
    (readptr : next.readptr = cursor.readptr + ((record.bytes part).length - cursor.myBytesRead))
    (endptr : next.endptr = cursor.endptr)
    (my : next.myBytesRead = cursor.myBytesRead - (record.bytes part).length)
    (already : next.alreadyRead = cursor.alreadyRead + ((record.bytes part).length - cursor.myBytesRead)) :
    PageRead record (part :: rest) cursor result := by
  have flat : record.flat (part :: rest) = record.bytes part ++ record.flat rest := by
    rw [UndoRecord.flat_cons, selected, if_pos rfl]
  have still : result.2.memory part = record.bytes part := (page.others part new).trans here
  have room : next.endptr - next.readptr =
      cursor.endptr - cursor.readptr - ((record.bytes part).length - cursor.myBytesRead) := by
    rw [readptr, endptr, Nat.sub_sub]
  refine ⟨?_, ?_, ?_⟩
  · intro enough
    rw [flat, List.length_append] at enough ⊢
    obtain ⟨complete, partly⟩ := page.whole (by rw [room, my]; omega)
    refine ⟨complete, ?_⟩
    rw [UndoRecord.PartlyRead, if_pos selected, Nat.add_sub_cancel_left]
    exact ⟨UndoRecord.filled_of_eq _ still, partly⟩
  · intro few
    rw [flat, List.length_append] at few
    obtain ⟨stopped, count, partly⟩ := page.part (by rw [room, my]; omega)
    refine ⟨stopped, by rw [count, already, room]; omega, ?_⟩
    rw [UndoRecord.PartlyRead, if_pos selected]
    have left : cursor.myBytesRead + (cursor.endptr - cursor.readptr) - (record.bytes part).length =
        next.myBytesRead + (next.endptr - next.readptr) := by
      rw [room, my]
      omega
    rw [left]
    exact ⟨UndoRecord.filled_of_eq _ still, partly⟩
  · intro other outside
    rw [List.mem_cons, not_or] at outside
    exact (page.others other outside.2).trans (others other outside.1)

/-- A section that goes on in the next page is the last one of this page. -/
theorem PageRead.stop (read : ReadPart record part next result)
    (same : next = { cursor with memory := next.memory }) (selected : record.present part = true)
    (new : part ∉ rest) (others : ∀ other, other ≠ part → next.memory other = cursor.memory other)
    (short : cursor.endptr - cursor.readptr < (record.bytes part).length - cursor.myBytesRead)
    (partly : record.PartlyRead rest (cursor.myBytesRead - (record.bytes part).length) cursor.memory) :
    PageRead record (part :: rest) cursor (false, result.2) := by
  have flat : record.flat (part :: rest) = record.bytes part ++ record.flat rest := by
    rw [UndoRecord.flat_cons, selected, if_pos rfl]
  obtain ⟨-, kept, filled, already⟩ := read
  rw [same] at filled already
  refine ⟨?_, ?_, ?_⟩
  · intro enough
    rw [flat, List.length_append] at enough
    omega
  · intro few
    refine ⟨rfl, already, ?_⟩
    rw [UndoRecord.PartlyRead, if_pos selected]
    refine ⟨filled, ?_⟩
    have absent : cursor.myBytesRead + (cursor.endptr - cursor.readptr) - (record.bytes part).length =
        cursor.myBytesRead - (record.bytes part).length := by omega
    rw [absent]
    apply partly.congr
    intro other member
    have different : other ≠ part := fun equal => new (equal ▸ member)
    rw [kept other different, others other different]
  · intro other outside
    rw [List.mem_cons, not_or] at outside
    exact (kept other outside.1).trans (others other outside.1)

end

end OpenGauss.Undo
