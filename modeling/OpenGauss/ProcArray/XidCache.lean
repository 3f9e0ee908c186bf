import Mathlib.Tactic

/-! What a backend advertises about its running transaction, and the two ways to take it back. -/

namespace OpenGauss.ProcArray

/-- The fields of `PGXACT` and `PGPROC` that the end of a transaction resets. `subxids` are the first
`nxids` entries of the subtransaction cache. -/
structure ProcXact where
  handle : Nat := 0
  xid : Nat := 0
  nextXid : Nat := 0
  lxid : Nat := 0
  xmin : Nat := 0
  snapXmax : Nat := 0
  snapCSN : Nat := 0
  exrtoReadLsn : Nat := 0
  exrtoMin : Nat := 0
  exrtoGenSnapTime : Nat := 0
  csnMin : Nat := 0
  csnDr : Nat := 0
  inVacuum : Bool := false
  inAnalyze : Bool := false
  delayChkpt : Bool := false
  recoveryConflictPending : Bool := false
  commitCSN : Nat := 0
  needToSyncXid : Nat := 0
  subxids : List Nat := []
  deriving DecidableEq, Repr

/-- `ProcArrayEndTransactionInternal` on the backend's own fields. -/
def endTransactionInternal (_ : ProcXact) : ProcXact where
  handle := 0
  xid := 0
  nextXid := 0
  lxid := 0
  xmin := 0
  snapXmax := 0
  snapCSN := 0
  exrtoReadLsn := 0
  exrtoMin := 0
  exrtoGenSnapTime := 0
  csnMin := 0
  csnDr := 0
  inVacuum := false
  inAnalyze := false
  delayChkpt := false
  recoveryConflictPending := false
  commitCSN := 0
  needToSyncXid := 0
  subxids := []

/-- Whether `xid` is cached, and where it is found from the end. -/
def lastIndexOf (xid : Nat) : List Nat → Option Nat
  | [] => none
  | head :: rest =>
    match lastIndexOf xid rest with
    | some index => some (index + 1)
    | none => if head = xid then some 0 else none

/-- The last entry takes the place of the removed one. -/
def removeXid (subxids : List Nat) (xid : Nat) : List Nat :=
  match lastIndexOf xid subxids with
  | some index => (subxids.set index (subxids.getLastD 0)).dropLast
  | none => subxids

/-- `XidCacheRemoveRunningXids`: the committed children from the last to the first, then the
subtransaction itself. -/
def removeRunningXids (proc : ProcXact) (xid nxids : Nat) (xids : List Nat) : ProcXact :=
  { proc with subxids := removeXid ((xids.take nxids).reverse.foldl removeXid proc.subxids) xid }

def advanceLatest (latestCompletedXid latestXid : Nat) : Nat :=
  if latestCompletedXid < latestXid then latestXid else latestCompletedXid

theorem lastIndexOf_eq_none {xid : Nat} {subxids : List Nat} :
    lastIndexOf xid subxids = none ↔ xid ∉ subxids := by
  induction subxids with
  | nil => simp [lastIndexOf]
  | cons head rest ih =>
    rw [lastIndexOf]
    cases found : lastIndexOf xid rest with
    | none =>
      rw [found] at ih
      by_cases here : head = xid
      · simp [here]
      · simpa [here, Ne.symm here] using ih
    | some index =>
      rw [found] at ih
      simp only [reduceCtorEq, false_iff, not_not] at ih ⊢
      exact List.mem_cons_of_mem _ ih

theorem lastIndexOf_spec {xid index : Nat} {subxids : List Nat} (found : lastIndexOf xid subxids = some index) :
    ∃ front back, subxids = front ++ xid :: back ∧ front.length = index := by
  induction subxids generalizing index with
  | nil => cases found
  | cons head rest ih =>
    rw [lastIndexOf] at found
    cases later : lastIndexOf xid rest with
    | none =>
      rw [later] at found
      by_cases here : head = xid
      · obtain rfl : 0 = index := by simpa [here] using found
        exact ⟨[], rest, by rw [here]; rfl, rfl⟩
      · simp [here] at found
    | some inner =>
      rw [later] at found
      obtain rfl := Option.some.inj found
      obtain ⟨front, back, rfl, rfl⟩ := ih later
      exact ⟨head :: front, back, rfl, rfl⟩

/-- Removing an xid from the cache takes out one entry and keeps the others. -/
theorem removeXid_perm (subxids : List Nat) (xid : Nat) : (removeXid subxids xid).Perm (subxids.erase xid) := by
  unfold removeXid
  cases found : lastIndexOf xid subxids with
  | none =>
    rw [List.erase_of_not_mem (lastIndexOf_eq_none.mp found)]
  | some index =>
    obtain ⟨front, back, rfl, rfl⟩ := lastIndexOf_spec found
    have taken : (front ++ xid :: back).Perm (xid :: (front ++ back)) := List.perm_middle
    have erased : ((front ++ xid :: back).erase xid).Perm (front ++ back) := by
      have := taken.erase xid
      rwa [List.erase_cons_head] at this
    refine List.Perm.trans ?_ erased.symm
    rcases List.eq_nil_or_concat back with rfl | ⟨middle, final, rfl⟩
    · simp
    · have last : (front ++ xid :: (middle ++ [final])).getLastD 0 = final := by
        rw [show front ++ xid :: (middle ++ [final]) = (front ++ xid :: middle) ++ [final] by simp,
          List.getLastD_concat]
      dsimp only
      rw [List.concat_eq_append, last]
      have placed : (front ++ xid :: (middle ++ [final])).set front.length final =
          (front ++ final :: middle) ++ [final] := by
        rw [List.set_append_right _ _ le_rfl]
        simp
      rw [placed, List.dropLast_concat]
      refine List.Perm.append_left front ?_
      exact (List.perm_append_singleton final middle).symm

theorem removeXids_perm (removed subxids : List Nat) :
    (removed.foldl removeXid subxids).Perm (subxids.diff removed) := by
  induction removed generalizing subxids with
  | nil => simp
  | cons xid rest ih =>
    rw [List.foldl_cons, List.diff_cons]
    exact (ih _).trans ((removeXid_perm subxids xid).diff_right rest)

/-- The subtransaction and its committed children leave the cache, and nothing else changes. -/
theorem removeRunningXids_spec (proc : ProcXact) (xid : Nat) (xids : List Nat) :
    ((removeRunningXids proc xid xids.length xids).subxids).Perm (proc.subxids.diff (xids ++ [xid])) ∧
      removeRunningXids proc xid xids.length xids =
        { proc with subxids := (removeRunningXids proc xid xids.length xids).subxids } := by
  refine ⟨?_, rfl⟩
  unfold removeRunningXids
  dsimp only
  rw [List.take_length]
  have both : removeXid (xids.reverse.foldl removeXid proc.subxids) xid =
      (xids.reverse ++ [xid]).foldl removeXid proc.subxids := by
    rw [List.foldl_append]
    rfl
  rw [both]
  have order : (xids.reverse ++ [xid]).Perm (xids ++ [xid]) := (List.reverse_perm xids).append_right [xid]
  rw [← List.Perm.diff_left proc.subxids order]
  exact removeXids_perm _ _

end OpenGauss.ProcArray
