import OpenGauss.UStore.UndoActions

namespace OpenGauss.UStore

open UPage (undoneFlag)

/-- The page differs from the page the loop started with only inside the ranges to be logged. -/
structure Confined (before : UPage) (loop : UndoLoop) : Prop where
  changed : ChangedOnly before loop.page
    (fun offnum => loop.xlogMinLPOffset ≤ offnum ∧ offnum ≤ loop.xlogMaxLPOffset)
    (fun address => loop.xlogCopyStartOffset ≤ address ∧ address < loop.xlogCopyEndOffset)
  untouched : loop.xlogMaxLPOffset < loop.xlogMinLPOffset → loop.page = before

namespace Confined

variable {before : UPage} {loop next : UndoLoop} {rel : RelationInfo} {record : UndoRecord}

/-- The ranges only widen, and a step changes the page only inside the widened ranges. -/
theorem advance (confined : Confined before loop) (lowRow : next.xlogMinLPOffset ≤ loop.xlogMinLPOffset)
    (highRow : loop.xlogMaxLPOffset ≤ next.xlogMaxLPOffset)
    (lowCell : next.xlogCopyStartOffset ≤ loop.xlogCopyStartOffset)
    (highCell : loop.xlogCopyEndOffset ≤ next.xlogCopyEndOffset)
    (changed : ChangedOnly loop.page next.page
      (fun offnum => next.xlogMinLPOffset ≤ offnum ∧ offnum ≤ next.xlogMaxLPOffset)
      (fun address => next.xlogCopyStartOffset ≤ address ∧ address < next.xlogCopyEndOffset))
    (same : next.xlogMaxLPOffset < next.xlogMinLPOffset → next.page = loop.page) :
    Confined before next where
  changed := by
    refine (confined.changed.mono ?_ ?_).trans changed
    · intro offnum inside
      exact ⟨lowRow.trans inside.1, inside.2.trans highRow⟩
    · intro address inside
      exact ⟨lowCell.trans inside.1, inside.2.trans_le highCell⟩
  untouched empty := (same empty).trans (confined.untouched (by omega))

end Confined

namespace UndoLoop

variable {before page : UPage} {loop next : UndoLoop} {rel : RelationInfo} {record : UndoRecord}

theorem widenRecord_min_le (loop : UndoLoop) (offset : Nat) :
    (loop.widenRecord offset).xlogMinLPOffset ≤ loop.xlogMinLPOffset := by
  simp only [widenRecord]
  split <;> omega

theorem le_widenRecord_max (loop : UndoLoop) (offset : Nat) :
    loop.xlogMaxLPOffset ≤ (loop.widenRecord offset).xlogMaxLPOffset := by
  simp only [widenRecord]
  split <;> omega

/-- The lower bound starts at `MaxOffsetNumber`, so a greater offset would not be covered. -/
theorem widenRecord_covers (loop : UndoLoop) {offset : Nat} (low : 1 ≤ offset)
    (high : offset ≤ maxOffsetNumber) :
    (loop.widenRecord offset).xlogMinLPOffset ≤ offset ∧
      offset ≤ (loop.widenRecord offset).xlogMaxLPOffset := by
  simp only [widenRecord]
  constructor <;> split <;> omega

theorem widenCopy_start_le (loop : UndoLoop) (rp : RowPtr) :
    (loop.widenCopy rp).xlogCopyStartOffset ≤ loop.xlogCopyStartOffset := by
  simp only [widenCopy]
  split <;> omega

theorem le_widenCopy_end (loop : UndoLoop) (rp : RowPtr) :
    loop.xlogCopyEndOffset ≤ (loop.widenCopy rp).xlogCopyEndOffset := by
  simp only [widenCopy]
  split <;> omega

theorem widenCopy_covers (loop : UndoLoop) (rp : RowPtr) {address : Nat}
    (low : rp.offset ≤ address) (high : address < rp.offset + rp.len) :
    (loop.widenCopy rp).xlogCopyStartOffset ≤ address ∧ address < (loop.widenCopy rp).xlogCopyEndOffset := by
  simp only [widenCopy]
  constructor <;> split <;> omega

theorem confined_undoInsert (confined : Confined before loop)
    (fits : before.rowPtrs.length ≤ maxOffsetNumber)
    (done : (loop.widenRecord record.offset).undoInsert rel record = some next) :
    Confined before next := by
  obtain ⟨page, undone, rfl⟩ := Option.map_eq_some_iff.mp done
  obtain ⟨low, high, changed, -⟩ := UPage.executeUndoForInsert_spec undone
  have inside : record.offset ≤ maxOffsetNumber := by
    have := confined.changed.length
    simp only [widenRecord] at high
    omega
  have covered := widenRecord_covers loop low inside
  apply confined.advance
  · exact widenRecord_min_le loop _
  · exact le_widenRecord_max loop _
  · exact le_rfl
  · exact le_rfl
  · apply changed.mono
    · intro offnum same
      subst offnum
      exact covered
    · intro address impossible
      exact impossible.elim
  · intro empty
    simp only [insertUndone] at empty
    omega

/-- The rows of a multi insert are undone in turn, and only their row pointers change. -/
theorem executeUndoForInsert_fold {xid : Nat} {offsets : List Nat} {after : UPage}
    (done : offsets.foldlM (UPage.executeUndoForInsert rel xid) page = some after) :
    ChangedOnly page after (· ∈ offsets) (fun _ => False) ∧
      (offsets = [] → after = page) ∧
      after.flags = offsets.foldl (fun flags off => flags.set (off - 1) (undoneFlag rel)) page.flags ∧
      ∀ off ∈ offsets, 1 ≤ off := by
  induction offsets generalizing page with
  | nil =>
    cases done
    exact ⟨ChangedOnly.refl _ _ _, fun _ => rfl, rfl, by simp⟩
  | cons off rest ih =>
    rw [List.foldlM_cons] at done
    obtain ⟨middle, first, remaining⟩ := Option.bind_eq_some_iff.mp done
    obtain ⟨low, -, changed, flagged⟩ := UPage.executeUndoForInsert_spec first
    obtain ⟨restChanged, -, restFlagged, positive⟩ := ih remaining
    refine ⟨?_, by simp, ?_, ?_⟩
    · refine (changed.mono ?_ (fun _ inside => inside)).trans
        (restChanged.mono ?_ (fun _ inside => inside))
      · intro offnum same
        exact List.mem_cons.mpr (Or.inl same)
      · intro offnum member
        exact List.mem_cons_of_mem _ member
    · rw [restFlagged, flagged, List.foldl_cons]
    · intro other member
      rcases List.mem_cons.mp member with rfl | later
      · exact low
      · exact positive other later

theorem confined_undoMultiInsert (confined : Confined before loop)
    (done : (loop.widenRecord record.offset).undoMultiInsert rel record = some next) :
    Confined before next := by
  obtain ⟨page, undone, rfl⟩ := Option.map_eq_some_iff.mp done
  obtain ⟨changed, same, -, -⟩ := executeUndoForInsert_fold undone
  have low := widenRecord_min_le loop record.offset
  have high := le_widenRecord_max loop record.offset
  apply confined.advance
  · simp only [insertUndone, widenRowPtrs]
    split <;> omega
  · simp only [insertUndone, widenRowPtrs]
    split <;> omega
  · exact le_rfl
  · exact le_rfl
  · apply changed.mono
    · intro offnum member
      rw [List.mem_range'_1] at member
      simp only [insertUndone, widenRowPtrs]
      constructor <;> split <;> omega
    · intro address impossible
      exact impossible.elim
  · intro empty
    apply same
    simp only [insertUndone, widenRowPtrs] at empty
    rw [List.range'_eq_nil_iff]
    split at empty <;> split at empty <;> omega

theorem confined_undoRestore (confined : Confined before loop)
    (fits : before.rowPtrs.length ≤ maxOffsetNumber)
    (done : (loop.widenRecord record.offset).undoRestore record = some next) :
    Confined before next := by
  unfold undoRestore at done
  cases restored : ((loop.widenRecord record.offset).page.copyTupleFromUndoRecord record).bind
      (UPage.restoreXactFromUndoRecord record) with
  | none => simp [restored] at done
  | some page =>
    simp only [restored] at done
    obtain ⟨rp, found, rfl⟩ := Option.map_eq_some_iff.mp done
    obtain ⟨copied, copy, xact⟩ := Option.bind_eq_some_iff.mp restored
    obtain ⟨old, tuple, oldFound, long, changedRp, changed, -⟩ :=
      UPage.copyTupleFromUndoRecord_spec copy
    obtain ⟨sameRows, xactChanged⟩ := UPage.restoreXactFromUndoRecord_spec changedRp xact
    have rpIs : rp = old.changeLen tuple.length := by
      simp only [UPage.rowPtr?, sameRows] at found changedRp
      exact Option.some.inj (found.symm.trans changedRp)
    obtain ⟨low, high, -⟩ := UPage.rowPtr?_some oldFound
    have inside : record.offset ≤ maxOffsetNumber := by
      have := confined.changed.length
      simp only [widenRecord] at high
      omega
    have covered := widenRecord_covers loop low inside
    subst rpIs
    apply confined.advance
    · exact widenRecord_min_le loop _
    · exact le_widenRecord_max loop _
    · exact widenCopy_start_le _ _
    · exact le_widenCopy_end _ _
    · refine (changed.mono ?_ ?_).trans (xactChanged.mono ?_ ?_)
      · intro offnum same
        subst offnum
        exact covered
      · intro address inRow
        exact widenCopy_covers _ _ inRow.1 inRow.2
      · intro offnum impossible
        exact impossible.elim
      · intro address inHeader
        apply widenCopy_covers _ _ inHeader.1
        exact inHeader.2.trans_le (Nat.add_le_add_left long _)
    · intro empty
      have crossed := covered.1.trans covered.2
      exact absurd empty (Nat.not_lt.mpr crossed)

/-- Records that are passed over leave the page as it is. -/
theorem confined_step (confined : Confined before loop)
    (fits : before.rowPtrs.length ≤ maxOffsetNumber) {blkno : Nat}
    (done : loop.step rel blkno record = some next) : Confined before next := by
  unfold step at done
  split at done
  · cases done
    exact confined
  · split at done
    · cases done
    · split at done
      · cases done
        exact ⟨confined.changed, confined.untouched⟩
      · split at done
        · cases done
          exact ⟨confined.changed, confined.untouched⟩
        · have moved : Confined before
              { loop with prevUrp := record.blkprev, slotPrevUrp := record.blkprev } :=
            ⟨confined.changed, confined.untouched⟩
          unfold applyRecord at done
          cases kind : record.utype with
          | insert => exact confined_undoInsert moved fits (by simpa [kind] using done)
          | multiInsert => exact confined_undoMultiInsert moved (by simpa [kind] using done)
          | delete => exact confined_undoRestore moved fits (by simpa [kind] using done)
          | update => exact confined_undoRestore moved fits (by simpa [kind] using done)
          | inplaceUpdate => exact confined_undoRestore moved fits (by simpa [kind] using done)
          | itemIdUnused => simp [kind] at done

/-- What is logged after the loop holds all that its records changed. -/
theorem confined_run (fits : before.rowPtrs.length ≤ maxOffsetNumber) {blkno : Nat}
    (records : List UndoRecord) (confined : Confined before loop)
    (done : records.foldlM (step rel blkno) loop = some next) : Confined before next := by
  induction records generalizing loop with
  | nil =>
    cases done
    exact confined
  | cons record rest ih =>
    rw [List.foldlM_cons] at done
    obtain ⟨middle, first, remaining⟩ := Option.bind_eq_some_iff.mp done
    exact ih (confined_step confined fits first) remaining

end UndoLoop

end OpenGauss.UStore
