import OpenGauss.Lib.Lists
import OpenGauss.UStore.UndoRanges

/-! A page that is not re-initialised is reproduced from the logged ranges; a re-initialised one is
rebuilt from header fields that were logged before the primary replaced them. -/

namespace OpenGauss.UStore

open UPage (undoneFlag)

/-- The row pointers an insert record takes back. -/
def UndoRecordData.covers (record : UndoRecordData) (offnum : Nat) : Bool :=
  match record.utype with
  | .insert => offnum == record.offset
  | .multiInsert => decide (record.startOffset ≤ offnum ∧ offnum ≤ record.endOffset)
  | _ => false

def UndoRecordData.isInsert (record : UndoRecordData) : Bool :=
  record.utype == .insert || record.utype == .multiInsert

/-- The records of a batch that are applied: the chain that starts at the slot's pointer. -/
def appliedFrom (prevUrp : Nat) : List UndoRecord → List UndoRecord
  | [] => []
  | record :: rest =>
    if prevUrp = 0 then []
    else if prevUrp ≠ record.urp then appliedFrom prevUrp rest
    else record :: appliedFrom record.blkprev rest

variable (rel : RelationInfo)

/-- Taking back inserts leaves the page without a used row pointer. -/
def LeavesNoneUsed (page : UPage) (applied : List UndoRecord) : Prop :=
  ∀ index rp, page.rowPtrs[index]? = some rp →
    if applied.any fun record => record.covers (index + 1) then rel.relhasindex = false
    else rp.flags = .unused

def markUndone (covered : Nat → Bool) (flags : List RowPtrFlag) : List RowPtrFlag :=
  flags.mapIdx fun index flag => if covered (index + 1) then undoneFlag rel else flag

theorem markUndone_markUndone (first second : Nat → Bool) (flags : List RowPtrFlag) :
    markUndone rel second (markUndone rel first flags) =
      markUndone rel (fun offnum => first offnum || second offnum) flags := by
  apply List.ext_getElem
  · simp [markUndone]
  · intro index low high
    simp only [markUndone, List.getElem_mapIdx]
    by_cases later : second (index + 1) = true
    · simp [later]
    · by_cases earlier : first (index + 1) = true <;> simp [later, earlier]

theorem markUndone_none {covered : Nat → Bool}
    (absent : ∀ offnum, covered offnum = false) (flags : List RowPtrFlag) :
    markUndone rel covered flags = flags := by
  apply List.ext_getElem
  · simp [markUndone]
  · intro index low high
    simp [markUndone, absent]

theorem set_eq_markUndone {off : Nat} (low : 1 ≤ off) (flags : List RowPtrFlag) :
    flags.set (off - 1) (undoneFlag rel) = markUndone rel (· == off) flags := by
  apply List.ext_getElem
  · simp [markUndone]
  · intro index inside high
    simp only [markUndone, List.getElem_mapIdx, List.getElem_set, beq_iff_eq]
    have same : off - 1 = index ↔ index + 1 = off := by omega
    simp only [same]

theorem foldl_set_eq_markUndone (offsets : List Nat)
    (low : ∀ off ∈ offsets, 1 ≤ off) (flags : List RowPtrFlag) :
    offsets.foldl (fun flags off => flags.set (off - 1) (undoneFlag rel)) flags =
      markUndone rel (fun offnum => offsets.contains offnum) flags := by
  induction offsets generalizing flags with
  | nil =>
    rw [markUndone_none rel (by simp)]
    rfl
  | cons off rest ih =>
    rw [List.foldl_cons, ih (fun other member => low other (List.mem_cons_of_mem _ member)),
      set_eq_markUndone rel (low off List.mem_cons_self), markUndone_markUndone]
    simp only [List.contains_cons]

/-- A page has no used row pointer left after taking inserts back. -/
theorem leavesNoneUsed_iff (page : UPage) (applied : List UndoRecord) :
    LeavesNoneUsed rel page applied ↔
      ∀ flag ∈ markUndone rel (fun offnum => applied.any fun record => record.covers offnum)
        page.flags, flag = .unused := by
  unfold LeavesNoneUsed
  constructor
  · intro empty flag member
    obtain ⟨index, inside, rfl⟩ := List.mem_iff_getElem.mp member
    simp only [markUndone, UPage.flags, List.length_mapIdx, List.length_map] at inside
    have final := empty index _ (List.getElem?_eq_getElem inside)
    simp only [markUndone, UPage.flags, List.getElem_mapIdx, List.getElem_map, undoneFlag]
    split at final
    · rename_i covered
      simp [covered, final]
    · rename_i kept
      simp [kept, final]
  · intro empty index rp found
    obtain ⟨inside, rfl⟩ := List.getElem?_eq_some_iff.mp found
    have final := empty _ (List.getElem_mem (n := index) (by simpa [markUndone, UPage.flags] using inside))
    simp only [markUndone, UPage.flags, List.getElem_mapIdx, List.getElem_map, undoneFlag] at final
    split at final
    · rename_i covered
      rw [if_pos covered]
      cases indexed : rel.relhasindex with
      | false => rfl
      | true => simp [indexed] at final
    · rename_i kept
      rw [if_neg kept]
      exact final

theorem covers_eq_false {record : UndoRecordData} (other : record.isInsert = false) (offnum : Nat) :
    record.covers offnum = false := by
  unfold UndoRecordData.isInsert at other
  unfold UndoRecordData.covers
  cases kind : record.utype <;> simp [kind] at other ⊢

namespace UndoLoop

variable {loop next : UndoLoop} {rel : RelationInfo} {record : UndoRecord}

/-- Applying a record: the chain moves on, an insert marks its row pointers and tests whether any
is still used, the other records leave flags and test alone. -/
structure Applied (rel : RelationInfo) (record : UndoRecord) (loop next : UndoLoop) : Prop where
  moved : next.prevUrp = record.blkprev
  going : next.stopped = loop.stopped
  flags : next.page.flags = markUndone rel record.covers loop.page.flags
  tested : record.isInsert = true → next.needPageInit = next.page.noneUsed
  kept : record.isInsert = false → next.needPageInit = loop.needPageInit

theorem applied_undoRestore (rel : RelationInfo) (other : record.isInsert = false)
    (done : loop.undoRestore record = some next) (moved : loop.prevUrp = record.blkprev) :
    Applied rel record loop next := by
  unfold undoRestore at done
  cases restored : (loop.page.copyTupleFromUndoRecord record).bind
      (UPage.restoreXactFromUndoRecord record) with
  | none => simp [restored] at done
  | some page =>
    simp only [restored] at done
    obtain ⟨rp, -, rfl⟩ := Option.map_eq_some_iff.mp done
    obtain ⟨copied, copy, xact⟩ := Option.bind_eq_some_iff.mp restored
    obtain ⟨old, tuple, -, -, changedRp, -, flags⟩ := UPage.copyTupleFromUndoRecord_spec copy
    obtain ⟨sameRows, -⟩ := UPage.restoreXactFromUndoRecord_spec changedRp xact
    refine ⟨moved, rfl, ?_, by simp [other], fun _ => rfl⟩
    rw [markUndone_none rel (covers_eq_false other), ← flags]
    simp only [widenCopy, UPage.flags, sameRows]

theorem applied_undoInsert (kind : record.utype = .insert)
    (done : loop.undoInsert rel record = some next) (moved : loop.prevUrp = record.blkprev) :
    Applied rel record loop next := by
  obtain ⟨page, undone, rfl⟩ := Option.map_eq_some_iff.mp done
  obtain ⟨low, -, -, flagged⟩ := UPage.executeUndoForInsert_spec undone
  refine ⟨moved, rfl, ?_, fun _ => rfl, by simp [UndoRecordData.isInsert, kind]⟩
  have single : record.covers = (· == record.offset) := by
    funext offnum
    simp [UndoRecordData.covers, kind]
  rw [single, ← set_eq_markUndone rel low]
  exact flagged

theorem applied_undoMultiInsert (kind : record.utype = .multiInsert)
    (done : loop.undoMultiInsert rel record = some next) (moved : loop.prevUrp = record.blkprev) :
    Applied rel record loop next := by
  obtain ⟨page, undone, rfl⟩ := Option.map_eq_some_iff.mp done
  obtain ⟨-, -, flagged, low⟩ := executeUndoForInsert_fold undone
  refine ⟨moved, rfl, ?_, fun _ => rfl, by simp [UndoRecordData.isInsert, kind]⟩
  have range : (fun offnum => (List.range' record.startOffset
      (record.endOffset + 1 - record.startOffset)).contains offnum) = record.covers := by
    funext offnum
    rw [Bool.eq_iff_iff]
    simp only [List.contains_iff_mem, List.mem_range'_1, UndoRecordData.covers, kind, decide_eq_true_eq]
    omega
  rw [foldl_set_eq_markUndone rel _ low, range] at flagged
  exact flagged

theorem applied_applyRecord (done : loop.applyRecord rel record = some next) :
    Applied rel record loop next := by
  unfold applyRecord at done
  cases kind : record.utype with
  | insert =>
    obtain ⟨moved, going, flags, tested, kept⟩ :=
      applied_undoInsert kind (by simpa [kind] using done) rfl
    exact ⟨moved, going, flags, tested, kept⟩
  | multiInsert =>
    obtain ⟨moved, going, flags, tested, kept⟩ :=
      applied_undoMultiInsert kind (by simpa [kind] using done) rfl
    exact ⟨moved, going, flags, tested, kept⟩
  | itemIdUnused => simp [kind] at done
  | delete | update | inplaceUpdate =>
    have other : record.isInsert = false := by simp [UndoRecordData.isInsert, kind]
    obtain ⟨moved, going, flags, tested, kept⟩ :=
      applied_undoRestore rel other (by simpa [kind] using done) rfl
    exact ⟨moved, going, flags, tested, kept⟩

/-- The test after a record speaks for the rest of the chain as the test before it did. -/
theorem Applied.needPageInit_cons (applied : Applied rel record loop next) (rest : List UndoRecord) :
    ((if rest.any (·.isInsert) then LeavesNoneUsed rel next.page rest
        else next.needPageInit = true) ↔
      if (record :: rest).any (·.isInsert) then LeavesNoneUsed rel loop.page (record :: rest)
      else loop.needPageInit = true) := by
  have shift : LeavesNoneUsed rel next.page rest ↔ LeavesNoneUsed rel loop.page (record :: rest) := by
    rw [leavesNoneUsed_iff, leavesNoneUsed_iff, applied.flags, markUndone_markUndone]
    simp only [List.any_cons]
  by_cases later : rest.any (·.isInsert) = true
  · simpa [later] using shift
  · rw [if_neg later, List.any_cons]
    cases first : record.isInsert with
    | false =>
      rw [applied.kept first]
      simp [later]
    | true =>
      have uncovered : ∀ offnum, (rest.any fun other => other.covers offnum) = false := by
        intro offnum
        rw [List.any_eq_false]
        intro other member
        rw [covers_eq_false (by simpa using List.any_eq_false.mp (by simpa using later) other member)]
        simp
      simp only [Bool.true_or, if_true]
      rw [applied.tested first, UPage.noneUsed_iff, ← shift, leavesNoneUsed_iff,
        markUndone_none rel uncovered]

theorem run_stopped {blkno : Nat} (records : List UndoRecord) (stopped : loop.stopped = true) :
    records.foldlM (step rel blkno) loop = some loop := by
  induction records with
  | nil => rfl
  | cons record rest ih =>
    rw [List.foldlM_cons]
    simpa [step, stopped] using ih

/-- After the loop, a re-initialisation is due exactly when inserts were taken back and none of
the row pointers is used any more; without an insert the flag keeps its value. -/
theorem run_needPageInit {blkno : Nat} (records : List UndoRecord) (going : loop.stopped = false)
    (done : records.foldlM (step rel blkno) loop = some next) :
    (next.needPageInit = true ↔ if (appliedFrom loop.prevUrp records).any (·.isInsert) then
        LeavesNoneUsed rel loop.page (appliedFrom loop.prevUrp records)
      else loop.needPageInit = true) := by
  induction records generalizing loop with
  | nil =>
    cases done
    simp [appliedFrom]
  | cons record rest ih =>
    rw [List.foldlM_cons] at done
    obtain ⟨middle, first, remaining⟩ := Option.bind_eq_some_iff.mp done
    unfold step at first
    rw [if_neg (by simp [going])] at first
    split at first
    · cases first
    · split at first
      · rename_i ended
        cases first
        rw [run_stopped rest rfl] at remaining
        cases remaining
        simp [appliedFrom, ended]
      · rename_i notEnded
        split at first
        · rename_i skipped
          cases first
          have later := ih
            (show UndoLoop.stopped { loop with slotPrevUrp := loop.prevUrp } = false from going) remaining
          simpa [appliedFrom, notEnded, skipped] using later
        · rename_i same
          have applied := applied_applyRecord first
          have later := ih (applied.going.trans going) remaining
          rw [applied.moved] at later
          have chain : appliedFrom loop.prevUrp (record :: rest) =
              record :: appliedFrom record.blkprev rest := by
            rw [appliedFrom, if_neg notEnded, if_neg same]
          rw [later, chain]
          exact applied.needPageInit_cons _

end UndoLoop

variable {before : UPage} {loop : UndoLoop}

/-- Copying the logged rows and header fields into the page the loop started with. -/
theorem rows_reproduce (confined : Confined before loop) (valid : loop.xlogMinLPOffset ≠ 0)
    (present : loop.xlogMinLPOffset ≤ loop.xlogMaxLPOffset) :
    before.rowPtrs.take (loop.xlogMinLPOffset - 1) ++
        (loop.page.rowPtrs.drop (loop.xlogMinLPOffset - 1)).take
          (loop.xlogMaxLPOffset - loop.xlogMinLPOffset + 1) ++
        before.rowPtrs.drop loop.xlogMaxLPOffset = loop.page.rowPtrs := by
  have length : loop.xlogMaxLPOffset - loop.xlogMinLPOffset + 1 =
      loop.xlogMaxLPOffset - (loop.xlogMinLPOffset - 1) := by omega
  rw [length]
  apply Lib.splice_eq (by omega)
  intro index outside
  exact confined.changed.rowPtrs index (by omega)

theorem tuples_reproduce (confined : Confined before loop) :
    (if loop.xlogCopyStartOffset < loop.xlogCopyEndOffset then
        Lib.writeAt before.data loop.xlogCopyStartOffset (Lib.readAt loop.page.data loop.xlogCopyStartOffset
            (loop.xlogCopyEndOffset - loop.xlogCopyStartOffset))
      else before.data) = loop.page.data := by
  split
  · apply Lib.writeAt_readAt
    intro address outside
    exact (confined.changed.data address (by omega)).symm
  · funext address
    exact (confined.changed.data address (by omega)).symm

/-- The logged ranges turn the page the loop started with into the page it ended with. -/
theorem restore_reproduces {rel : RelationInfo} {tdSlotId xid : Nat} {record : XlUHeapUndo}
    (confined : Confined before loop) (kept : loop.needPageInit = false)
    (logged : logUHeapUndoActions rel loop
      (loop.page.uheapPageSetUndo tdSlotId xid loop.slotPrevUrp) tdSlotId xid = some record) :
    uheapUndoXlogPage before record = loop.page.uheapPageSetUndo tdSlotId xid loop.slotPrevUrp := by
  unfold logUHeapUndoActions at logged
  split at logged
  · cases logged
  · rw [if_neg (by simp [kept])] at logged
    split at logged
    · cases logged
    · rename_i valid
      split at logged
      · cases logged
      · split at logged
        · cases logged
        · cases logged
          rw [not_or] at valid
          simp only [uheapUndoXlogPage, uheapUndoXlogPageRestore]
          by_cases present : loop.xlogMinLPOffset ≤ loop.xlogMaxLPOffset
          · simp only [if_pos present, UPage.uheapPageSetUndo_rowPtrs, UPage.uheapPageSetUndo_data,
              UPage.uheapPageSetUndo_pdFlags, UPage.uheapPageSetUndo_pdPruneXid,
              UPage.uheapPageSetUndo_potentialFreespace]
            rw [rows_reproduce confined valid.1 present, tuples_reproduce confined,
              ← confined.changed.pdUpper, ← confined.changed.pdXidBase,
              ← confined.changed.pdMultiBase, ← confined.changed.tds]
          · simp only [if_neg present]
            rw [confined.untouched (by omega)]

/-- Two fresh pages are equal when their xid bases and transaction slots are. -/
theorem fresh_eq_iff (toast : Bool) (first second firstBase secondBase : Nat) :
    ({ UPage.upageInit toast first with pdXidBase := firstBase, pdMultiBase := 0 } : UPage) =
        { UPage.upageInit toast second with pdXidBase := secondBase, pdMultiBase := 0 } ↔
      firstBase = secondBase ∧ (toast = true ∨ first = second) := by
  constructor
  · intro same
    refine ⟨congrArg UPage.pdXidBase same, ?_⟩
    cases toast with
    | true => exact Or.inl rfl
    | false =>
      have slots := congrArg UPage.tdCount same
      simpa [UPage.upageInit, UPage.tdCount] using slots
  · rintro ⟨rfl, rfl | rfl⟩
    · simp [UPage.upageInit]
    · rfl

namespace UndoContext

variable (context : UndoContext)

/-- The records of a batch that a rollback of the context's transaction applies to a page. -/
def appliedRecords (page : UPage) (records : List UndoRecord) : List UndoRecord :=
  match page.uheapPageGetTDSlotId context.xid with
  | none => []
  | some (_, slotUrecPtr) => appliedFrom slotUrecPtr records

/-- The rollback takes back inserts and leaves no row pointer in use. -/
def Empties (page : UPage) (records : List UndoRecord) : Prop :=
  (context.appliedRecords page records).any (·.isInsert) = true ∧
    LeavesNoneUsed context.rel page (context.appliedRecords page records)

variable {context}

/-- Transaction 10 inserted row 2 after deleting row 1 of this page; `rows` are its row pointers. -/
def rollbackPage (rows : List RowPtr) : UPage where
  pdFlags := 0
  pdUpper := 7960
  potentialFreespace := 400
  pdPruneXid := 0
  pdXidBase := 5
  pdMultiBase := 0
  tds := [⟨10, 200⟩, {}, {}, {}]
  rowPtrs := rows
  data := fun address => if address = 8004 ∨ address = 7964 then 1 else 7

def rollbackContext : UndoContext where
  rel := ⟨false, false, 4⟩
  blkno := 3
  xid := 10
  isFullChain := true
  recentXmin := 1000
  fetchXid := fun _ => none

def undoOfInsert : UndoRecord where
  urp := 200
  blkprev := 100
  blkno := 3
  utype := .insert
  offset := 2
  xid := 10
  oldXactId := 2
  containSubXact := false
  rawdata := []
  complete := by decide

def undoOfDelete : UndoRecord where
  urp := 100
  blkprev := 0
  blkno := 3
  utype := .delete
  offset := 1
  xid := 10
  oldXactId := 2
  containSubXact := false
  rawdata := [0, 0, 2, 0, 1, 0, 11, 42, 43, 44]
  complete := by decide

end UndoContext

end OpenGauss.UStore
