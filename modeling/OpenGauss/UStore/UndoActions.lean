import OpenGauss.UStore.UPage

/-! Rolling back one transaction on one page, its log record and the replay. `none` stands for a
call that ends in `PANIC`, or that reaches a row pointer the page does not have. -/

namespace OpenGauss.UStore

/-- What the rollback needs to know of the relation. -/
structure RelationInfo where
  relhasindex : Bool
  isToast : Bool
  initTd : Nat
  deriving DecidableEq, Repr

namespace UPage

def executeUndoForInsert (rel : RelationInfo) (xid : Nat) (page : UPage) (off : Nat) : Option UPage :=
  match page.rowPtr? off with
  | none => none
  | some rp =>
    let page := page.recordPotentialFreeSpace (shortAlign rp.len)
    let page :=
      if rel.relhasindex then page.setRowPtr off RowPtr.setDead
      else (page.setRowPtr off RowPtr.setUnused).setHasFreeLinePointers
    some (page.setPrunable xid)

def copyTupleFromUndoRecord (record : UndoRecord) (page : UPage) : Option UPage :=
  match page.rowPtr? record.offset with
  | none => none
  | some rp =>
    if rp.isNormal then
      match record.restoredTuple (fun index => page.data (rp.offset + index)) rp.len with
      | none => none
      | some tuple =>
        let page := (page.setRowPtr record.offset (rp.changeLen tuple.length)).write rp.offset tuple
        if record.utype = .inplaceUpdate then some page
        else some (page.recordPotentialFreeSpace (-(shortAlign tuple.length : Nat)))
    else none

/-- Mark the restored row as frozen, or its transaction slot as reused. -/
def restoreXactFromUndoRecord (record : UndoRecord) (page : UPage) : Option UPage :=
  match page.rowPtr? record.offset with
  | none => none
  | some rp =>
    let tdSlot := (page.data (rp.offset + offsetTdId)).toNat
    if page.tdCount < tdSlot then none
    else if record.oldXactId = frozenTransactionId ∨ tdSlot = 0 then
      some (page.write (rp.offset + offsetTdId) [0])
    else if (page.tds.getD (tdSlot - 1) {}).xactid ≠ record.oldXactId then
      some (page.write (rp.offset + 7) [page.data (rp.offset + 7) ||| 0x10])
    else some page

def noneUsed (page : UPage) : Bool := page.rowPtrs.all fun rp => !rp.isUsed

end UPage

/-- The local variables of the loop in `UHeapUndoActions`. -/
structure UndoLoop where
  page : UPage
  prevUrp : Nat
  slotPrevUrp : Nat
  stopped : Bool := false
  needPageInit : Bool := false
  xlogMinLPOffset : Nat := maxOffsetNumber
  xlogMaxLPOffset : Nat := 0
  xlogCopyStartOffset : Nat := blcksz
  xlogCopyEndOffset : Nat := 0

namespace UndoLoop

def widenRowPtrs (loop : UndoLoop) (first last : Nat) : UndoLoop :=
  { loop with
    xlogMinLPOffset := if first < loop.xlogMinLPOffset then first else loop.xlogMinLPOffset
    xlogMaxLPOffset := if loop.xlogMaxLPOffset < last then last else loop.xlogMaxLPOffset }

def widenCopy (loop : UndoLoop) (rp : RowPtr) : UndoLoop :=
  { loop with
    xlogCopyStartOffset :=
      if rp.offset < loop.xlogCopyStartOffset then rp.offset else loop.xlogCopyStartOffset
    xlogCopyEndOffset :=
      if loop.xlogCopyEndOffset < rp.offset + rp.len then rp.offset + rp.len
      else loop.xlogCopyEndOffset }

def insertUndone (loop : UndoLoop) (page : UPage) : UndoLoop :=
  { loop with page, needPageInit := page.noneUsed }

/-- Store the row pointer of a record in the logged range, when it is a valid offset number. -/
def widenRecord (loop : UndoLoop) (offset : Nat) : UndoLoop :=
  { loop with
    xlogMinLPOffset :=
      if 0 < offset ∧ offset < loop.xlogMinLPOffset then offset else loop.xlogMinLPOffset
    xlogMaxLPOffset :=
      if offset ≤ maxOffsetNumber ∧ loop.xlogMaxLPOffset < offset then offset
      else loop.xlogMaxLPOffset }

def undoInsert (rel : RelationInfo) (record : UndoRecord) (loop : UndoLoop) : Option UndoLoop :=
  (loop.page.executeUndoForInsert rel record.xid record.offset).map loop.insertUndone

def undoMultiInsert (rel : RelationInfo) (record : UndoRecord) (loop : UndoLoop) : Option UndoLoop :=
  let loop := loop.widenRowPtrs record.startOffset record.endOffset
  let offsets := List.range' record.startOffset (record.endOffset + 1 - record.startOffset)
  (offsets.foldlM (UPage.executeUndoForInsert rel record.xid) loop.page).map loop.insertUndone

def undoRestore (record : UndoRecord) (loop : UndoLoop) : Option UndoLoop :=
  match (loop.page.copyTupleFromUndoRecord record).bind (UPage.restoreXactFromUndoRecord record) with
  | none => none
  | some page =>
    (page.rowPtr? record.offset).map fun rp => { loop with page }.widenCopy rp

def applyRecord (rel : RelationInfo) (record : UndoRecord) (loop : UndoLoop) : Option UndoLoop :=
  let loop := { loop with prevUrp := record.blkprev, slotPrevUrp := record.blkprev }
  let loop := loop.widenRecord record.offset
  match record.utype with
  | .insert => loop.undoInsert rel record
  | .multiInsert => loop.undoMultiInsert rel record
  | .delete | .update | .inplaceUpdate => loop.undoRestore record
  | .itemIdUnused => none

/-- One turn of the loop; `stopped` models its `break`. -/
def step (rel : RelationInfo) (blkno : Nat) (loop : UndoLoop) (record : UndoRecord) : Option UndoLoop :=
  if loop.stopped then some loop
  else if record.blkno ≠ blkno then none
  else if loop.prevUrp = 0 then some { loop with slotPrevUrp := 0, stopped := true }
  else if loop.prevUrp ≠ record.urp then some { loop with slotPrevUrp := loop.prevUrp }
  else loop.applyRecord rel record

end UndoLoop

structure XlUHeapUndoRows where
  rowPtrs : List RowPtr
  copyStartOffset : Nat
  copyEndOffset : Nat
  tuples : List UInt8
  pdPruneXid : Nat
  pdFlags : Nat
  potentialFreespace : Nat

/-- The record of `LogUHeapUndoActions`: an emptied page, or the changed ranges of a page. -/
inductive XlUHeapUndo where
  | initPage (toast : Bool) (xidBase tdCount : Nat)
  | restorePage (minLPOffset maxLPOffset : Nat) (rows : Option XlUHeapUndoRows)
      (tdSlotId xid slotPrevUrp : Nat)

/-- `page` is the page after the loop and before its re-initialisation. -/
def logUHeapUndoActions (rel : RelationInfo) (loop : UndoLoop) (page : UPage)
    (tdSlotId xid : Nat) : Option XlUHeapUndo :=
  if blcksz < page.potentialFreespace then none
  else if loop.needPageInit then some (.initPage rel.isToast page.pdXidBase page.tdCount)
  else if loop.xlogMinLPOffset = 0 ∨ maxOffsetNumber ≤ loop.xlogMaxLPOffset then none
  else if page.tdCount < tdSlotId then none
  else if loop.xlogCopyStartOffset ≤ sizeOfUHeapPageHeaderData + page.tdCount * sizeOfTD ∨
      blcksz < loop.xlogCopyStartOffset ∨ blcksz < loop.xlogCopyEndOffset then none
  else
    let rows :=
      if loop.xlogMinLPOffset ≤ loop.xlogMaxLPOffset then some
        { rowPtrs := (page.rowPtrs.drop (loop.xlogMinLPOffset - 1)).take
            (loop.xlogMaxLPOffset - loop.xlogMinLPOffset + 1)
          copyStartOffset := loop.xlogCopyStartOffset
          copyEndOffset := loop.xlogCopyEndOffset
          tuples := Lib.readAt page.data loop.xlogCopyStartOffset
            (loop.xlogCopyEndOffset - loop.xlogCopyStartOffset)
          pdPruneXid := page.pdPruneXid
          pdFlags := page.pdFlags
          potentialFreespace := page.potentialFreespace }
      else none
    some (.restorePage loop.xlogMinLPOffset loop.xlogMaxLPOffset rows tdSlotId xid loop.slotPrevUrp)

/-- What a rollback call is given besides the page and its undo records. `fetchXid` is the
transaction of the undo record at a pointer, when that record can still be fetched. -/
structure UndoContext where
  rel : RelationInfo
  blkno : Nat
  xid : Nat
  isFullChain : Bool
  recentXmin : Nat
  fetchXid : Nat → Option Nat

inductive RollbackResult where
  | skipped
  | applied (page : UPage) (record : XlUHeapUndo)

def undoPtrGetZoneId (urp : Nat) : Nat := urp / 2 ^ 44

namespace UndoContext

variable (context : UndoContext)

/-- The transaction left in the slot after the rollback. -/
def remainingXid (slotPrevUrp : Nat) : Nat :=
  if context.isFullChain ∨ slotPrevUrp = 0 then 0
  else if context.fetchXid slotPrevUrp = some context.xid then context.xid
  else 0

def reinit (page : UPage) (needPageInit : Bool) : UPage :=
  if needPageInit then
    { UPage.upageInit context.rel.isToast context.rel.initTd with
      pdXidBase := context.recentXmin - firstNormalTransactionId
      pdMultiBase := 0 }
  else page

def uheapUndoActions (page : UPage) (first : UndoRecord) (rest : List UndoRecord) : Option RollbackResult :=
  match page.uheapPageGetTDSlotId context.xid with
  | none => some .skipped
  | some (tdSlotId, slotUrecPtr) =>
    let slotPrevUrp := ((first :: rest).getLast (by simp)).blkprev
    if undoPtrGetZoneId slotUrecPtr ≠ undoPtrGetZoneId first.urp ∨
        undoPtrGetZoneId slotUrecPtr = undoPtrGetZoneId slotPrevUrp ∧ slotUrecPtr ≤ slotPrevUrp then
      some .skipped
    else
      match (first :: rest).foldlM (UndoLoop.step context.rel context.blkno)
          { page, prevUrp := slotUrecPtr, slotPrevUrp } with
      | none => none
      | some loop =>
        let xid := context.remainingXid loop.slotPrevUrp
        let page := loop.page.uheapPageSetUndo tdSlotId xid loop.slotPrevUrp
        (logUHeapUndoActions context.rel loop page tdSlotId xid).map
          (.applied (context.reinit page loop.needPageInit))

end UndoContext

def uheapUndoXlogPageRestore (page : UPage) (minLPOffset maxLPOffset : Nat)
    (rows : Option XlUHeapUndoRows) (tdSlotId xid slotPrevUrp : Nat) : UPage :=
  let page :=
    match rows with
    | none => page
    | some rows =>
      { page with
        rowPtrs := page.rowPtrs.take (minLPOffset - 1) ++ rows.rowPtrs ++ page.rowPtrs.drop maxLPOffset
        data :=
          if rows.copyStartOffset < rows.copyEndOffset then
            Lib.writeAt page.data rows.copyStartOffset rows.tuples
          else page.data
        pdFlags := rows.pdFlags
        pdPruneXid := rows.pdPruneXid
        potentialFreespace := rows.potentialFreespace }
  page.uheapPageSetUndo tdSlotId xid slotPrevUrp

def uheapUndoXlogPage (page : UPage) : XlUHeapUndo → UPage
  | .initPage toast xidBase tdCount =>
    { UPage.upageInit toast tdCount with pdXidBase := xidBase, pdMultiBase := 0 }
  | .restorePage minLPOffset maxLPOffset rows tdSlotId xid slotPrevUrp =>
    uheapUndoXlogPageRestore page minLPOffset maxLPOffset rows tdSlotId xid slotPrevUrp

/-- Only the named row pointers and bytes differ, besides flags, prune hint and potential space. -/
structure ChangedOnly (before after : UPage) (rows cells : Nat → Prop) : Prop where
  tds : after.tds = before.tds
  pdUpper : after.pdUpper = before.pdUpper
  pdXidBase : after.pdXidBase = before.pdXidBase
  pdMultiBase : after.pdMultiBase = before.pdMultiBase
  length : after.rowPtrs.length = before.rowPtrs.length
  rowPtrs : ∀ index, ¬ rows (index + 1) → after.rowPtrs[index]? = before.rowPtrs[index]?
  data : ∀ address, ¬ cells address → after.data address = before.data address

namespace ChangedOnly

variable {before middle after : UPage} {rows cells otherRows otherCells : Nat → Prop}

theorem refl (page : UPage) (rows cells : Nat → Prop) : ChangedOnly page page rows cells :=
  ⟨rfl, rfl, rfl, rfl, rfl, fun _ _ => rfl, fun _ _ => rfl⟩

theorem trans (first : ChangedOnly before middle rows cells)
    (second : ChangedOnly middle after rows cells) : ChangedOnly before after rows cells where
  tds := second.tds.trans first.tds
  pdUpper := second.pdUpper.trans first.pdUpper
  pdXidBase := second.pdXidBase.trans first.pdXidBase
  pdMultiBase := second.pdMultiBase.trans first.pdMultiBase
  length := second.length.trans first.length
  rowPtrs index outside := (second.rowPtrs index outside).trans (first.rowPtrs index outside)
  data address outside := (second.data address outside).trans (first.data address outside)

theorem mono (changed : ChangedOnly before after rows cells)
    (moreRows : ∀ offnum, rows offnum → otherRows offnum)
    (moreCells : ∀ address, cells address → otherCells address) :
    ChangedOnly before after otherRows otherCells :=
  { changed with
    rowPtrs := fun index outside => changed.rowPtrs index (fun inside => outside (moreRows _ inside))
    data := fun address outside => changed.data address (fun inside => outside (moreCells _ inside)) }

end ChangedOnly

namespace UPage

variable {page after : UPage}

variable {offnum : Nat} {rp : RowPtr} {record : UndoRecord}

theorem rowPtr?_some (found : page.rowPtr? offnum = some rp) :
    1 ≤ offnum ∧ offnum ≤ page.rowPtrs.length ∧ page.rowPtrs[offnum - 1]? = some rp := by
  unfold rowPtr? at found
  split at found
  · cases found
  · rename_i positive
    have inside := (List.getElem?_eq_some_iff.mp found).1
    exact ⟨by omega, by omega, found⟩

theorem setPrunable_rowPtrs (page : UPage) (xid : Nat) : (page.setPrunable xid).rowPtrs = page.rowPtrs := by
  unfold setPrunable
  split <;> rfl

theorem setPrunable_changed (page : UPage) (xid : Nat) (rows cells : Nat → Prop) :
    ChangedOnly page (page.setPrunable xid) rows cells := by
  unfold setPrunable
  split
  · exact ⟨rfl, rfl, rfl, rfl, rfl, fun _ _ => rfl, fun _ _ => rfl⟩
  · exact ChangedOnly.refl page rows cells

theorem setRowPtr_changed (page : UPage) (positive : 1 ≤ offnum) (rp : RowPtr) (cells : Nat → Prop) :
    ChangedOnly page (page.setRowPtr offnum rp) (· = offnum) cells := by
  refine ⟨rfl, rfl, rfl, rfl, by simp [setRowPtr], ?_, fun _ _ => rfl⟩
  intro index outside
  simp only [setRowPtr]
  rw [List.getElem?_set_ne (by omega)]

theorem write_changed (page : UPage) (offset : Nat) (bytes : List UInt8) (rows : Nat → Prop) :
    ChangedOnly page (page.write offset bytes) rows
      (fun address => offset ≤ address ∧ address < offset + bytes.length) := by
  refine ⟨rfl, rfl, rfl, rfl, rfl, fun _ _ => rfl, ?_⟩
  intro address outside
  exact Lib.writeAt_outside page.data (by omega)

/-- The flag an undone insert leaves in its row pointer. -/
def undoneFlag (rel : RelationInfo) : RowPtrFlag := if rel.relhasindex then .dead else .unused

def flags (page : UPage) : List RowPtrFlag := page.rowPtrs.map (·.flags)

theorem noneUsed_iff : page.noneUsed = true ↔ ∀ flag ∈ page.flags, flag = .unused := by
  simp [noneUsed, flags, RowPtr.isUsed]

theorem executeUndoForInsert_spec {rel : RelationInfo} {xid off : Nat}
    (done : page.executeUndoForInsert rel xid off = some after) :
    1 ≤ off ∧ off ≤ page.rowPtrs.length ∧ ChangedOnly page after (· = off) (fun _ => False) ∧
      after.flags = page.flags.set (off - 1) (undoneFlag rel) := by
  unfold executeUndoForInsert at done
  cases found : page.rowPtr? off with
  | none => simp [found] at done
  | some rp =>
    obtain ⟨low, high, -⟩ := rowPtr?_some found
    simp only [found, Option.some.injEq] at done
    subst after
    refine ⟨low, high, ?_, ?_⟩
    · apply ChangedOnly.trans _ (setPrunable_changed _ _ _ _)
      have space : ChangedOnly page (page.recordPotentialFreeSpace (shortAlign rp.len)) (· = off)
          (fun _ => False) :=
        ⟨rfl, rfl, rfl, rfl, rfl, fun _ _ => rfl, fun _ _ => rfl⟩
      apply space.trans
      split
      · exact setRowPtr_changed _ low _ _
      · have marked := setRowPtr_changed (page.recordPotentialFreeSpace (shortAlign rp.len)) low
          RowPtr.setUnused (fun _ => False)
        exact ⟨marked.tds, marked.pdUpper, marked.pdXidBase, marked.pdMultiBase, marked.length,
          marked.rowPtrs, marked.data⟩
    · simp only [flags, setPrunable_rowPtrs, undoneFlag]
      split <;> simp [setRowPtr, setHasFreeLinePointers, recordPotentialFreeSpace, List.map_set,
        RowPtr.setDead, RowPtr.setUnused]

theorem rowPtr?_setRowPtr {old : RowPtr} (found : page.rowPtr? offnum = some old) (rp : RowPtr) :
    (page.setRowPtr offnum rp).rowPtr? offnum = some rp := by
  obtain ⟨low, high, -⟩ := rowPtr?_some found
  have inside : offnum - 1 < page.rowPtrs.length := by omega
  simp [rowPtr?, setRowPtr, inside, Nat.ne_of_gt low]

theorem copyTupleFromUndoRecord_spec (done : page.copyTupleFromUndoRecord record = some after) :
    ∃ (rp : RowPtr) (tuple : List UInt8), page.rowPtr? record.offset = some rp ∧
      sizeOfUHeapDiskTupleData ≤ tuple.length ∧
      after.rowPtr? record.offset = some (rp.changeLen tuple.length) ∧
      ChangedOnly page after (· = record.offset)
        (fun address => rp.offset ≤ address ∧ address < rp.offset + tuple.length) ∧
      after.flags = page.flags := by
  unfold copyTupleFromUndoRecord at done
  cases found : page.rowPtr? record.offset with
  | none => simp [found] at done
  | some rp =>
    obtain ⟨low, high, stored⟩ := rowPtr?_some found
    simp only [found] at done
    split at done
    · cases restored : record.restoredTuple (fun index => page.data (rp.offset + index)) rp.len with
      | none => simp [restored] at done
      | some tuple =>
        have marked := rowPtr?_setRowPtr found (rp.changeLen tuple.length)
        have changed := (setRowPtr_changed page low (rp.changeLen tuple.length) _).trans
          (write_changed (page.setRowPtr record.offset (rp.changeLen tuple.length)) rp.offset tuple
            (· = record.offset))
        have kept : (page.setRowPtr record.offset (rp.changeLen tuple.length)).flags =
            page.flags := by
          obtain ⟨inside, same⟩ := List.getElem?_eq_some_iff.mp stored
          have unchanged := List.set_getElem_self
            (show record.offset - 1 < (page.rowPtrs.map (·.flags)).length by simpa using inside)
          simpa [flags, setRowPtr, List.map_set, RowPtr.changeLen, same] using unchanged
        refine ⟨rp, tuple, rfl, record.header_le_restoredTuple restored, ?_⟩
        simp only [restored] at done
        split at done
        · cases done
          exact ⟨marked, changed, kept⟩
        · cases done
          exact ⟨marked, ⟨changed.tds, changed.pdUpper, changed.pdXidBase, changed.pdMultiBase,
            changed.length, changed.rowPtrs, changed.data⟩, kept⟩
    · cases done

theorem restoreXactFromUndoRecord_spec (found : page.rowPtr? record.offset = some rp)
    (done : page.restoreXactFromUndoRecord record = some after) :
    after.rowPtrs = page.rowPtrs ∧ ChangedOnly page after (fun _ => False)
        (fun address => rp.offset ≤ address ∧ address < rp.offset + sizeOfUHeapDiskTupleData) := by
  simp only [restoreXactFromUndoRecord, found] at done
  split at done
  · cases done
  · split at done
    · cases done
      refine ⟨rfl, (write_changed page _ _ _).mono (fun _ inside => inside) ?_⟩
      intro address inside
      simp only [offsetTdId, sizeOfUHeapDiskTupleData, List.length_singleton] at *
      omega
    · split at done
      · cases done
        refine ⟨rfl, (write_changed page _ _ _).mono (fun _ inside => inside) ?_⟩
        intro address inside
        simp only [sizeOfUHeapDiskTupleData, List.length_singleton] at *
        omega
      · cases done
        exact ⟨rfl, ChangedOnly.refl page _ _⟩

end UPage

end OpenGauss.UStore
