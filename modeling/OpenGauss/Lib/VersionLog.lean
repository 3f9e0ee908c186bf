import Mathlib.Data.List.TakeWhile
import Mathlib.Tactic

/-! Logs that save the state of the logged object now and then. Old states are restored from the
newest saved state whose version is not past the wanted stamp. -/

namespace OpenGauss.Lib

universe u v w z

structure VersionLog (Entry : Type u) (State : Type v) (Place : Type w) (Stamp : Type z) where
  stamp : Entry → Stamp
  state : Entry → State
  image : Entry → Option Place
  version : State → Stamp

namespace VersionLog

variable {Entry : Type u} {State : Type v} {Place : Type w} {Stamp : Type z} [LinearOrder Stamp]
  (log : VersionLog Entry State Place Stamp)

/-- The newest saved state not past `read`, and the stamps below `read` from its entry on. -/
def Latest (entries : List Entry) (read : Stamp) (place : Place) (version : Stamp)
    (stamps : List Stamp) : Prop :=
  ∃ before entry after, entries = before ++ entry :: after ∧ log.image entry = some place ∧
    log.version (log.state entry) = version ∧ version ≤ read ∧
    (∀ later ∈ after, (log.image later).isSome → read < log.version (log.state later)) ∧
    stamps = ((entry :: after).map log.stamp).filter (· < read)

/-- Stamps do not decrease. -/
def Ordered (entries : List Entry) : Prop :=
  entries.Pairwise fun first second => log.stamp first ≤ log.stamp second

/-- Every entry finds the state that the one before it left, with a version past its stamp. -/
def Replayed (apply : State → Stamp → State) (entries : List Entry) : Prop :=
  entries.IsChain fun first second =>
    log.state second = apply (log.state first) (log.stamp first) ∧
      log.stamp first < log.version (log.state second)

/-- The first state with all entries below `read` applied. -/
def asOf (apply : State → Stamp → State) (entries : List Entry) (read : Stamp) : Option State :=
  entries.head?.map fun first =>
    ((entries.map log.stamp).filter (· < read)).foldl apply (log.state first)

/-- Fewer than `interval` entries in a row go without a saved state. -/
def Spaced (interval : Nat) (entries : List Entry) : Prop :=
  ∀ run, run <:+: entries → (∀ entry ∈ run, log.image entry = none) → run.length < interval

variable {log} {entries : List Entry} {read version : Stamp} {place : Place} {stamps : List Stamp}

theorem Latest.entry (latest : log.Latest entries read place version stamps) :
    ∃ entry ∈ entries, log.image entry = some place ∧ log.version (log.state entry) = version := by
  obtain ⟨before, entry, after, rfl, image, same, -⟩ := latest
  exact ⟨entry, by simp, image, same⟩

theorem Replayed.state_eq {apply : State → Stamp → State} {first entry : Entry} {middle after : List Entry}
    (replayed : log.Replayed apply (first :: (middle ++ entry :: after))) :
    log.state entry = ((first :: middle).map log.stamp).foldl apply (log.state first) := by
  induction middle generalizing first with
  | nil => simpa using replayed.rel.1
  | cons next rest ih =>
    rw [ih replayed.tail, show log.state next = apply (log.state first) (log.stamp first) from
      replayed.rel.1]
    simp

/-- Replaying from the newest saved state gives the state as of the wanted stamp. -/
theorem Latest.replay {apply : State → Stamp → State}
    (latest : log.Latest entries read place version stamps) (ordered : log.Ordered entries)
    (replayed : log.Replayed apply entries) :
    ∃ entry ∈ entries, log.image entry = some place ∧
      log.asOf apply entries read = some (stamps.foldl apply (log.state entry)) := by
  obtain ⟨before, entry, after, rfl, image, rfl, low, later, rfl⟩ := latest
  refine ⟨entry, by simp, image, ?_⟩
  cases before using List.reverseRecOn with
  | nil => simp [asOf]
  | append_singleton front last =>
    have past : log.stamp last < log.version (log.state entry) := by
      have chain : log.Replayed apply (last :: entry :: after) := by
        have whole := replayed
        rw [List.append_assoc] at whole
        exact whole.right_of_append
      exact chain.rel.2
    have below : ∀ other ∈ front ++ [last], log.stamp other < read := by
      intro other member
      have lastLow : log.stamp last < read := lt_of_lt_of_le past low
      rcases List.mem_append.mp member with inFront | isLast
      · have pairs := (List.pairwise_append.mp ordered).1
        exact lt_of_le_of_lt ((List.pairwise_append.mp pairs).2.2 other inFront last (by simp))
          lastLow
      · exact (List.mem_singleton.mp isLast) ▸ lastLow
    obtain ⟨first, middle, start⟩ : ∃ first middle, front ++ [last] = first :: middle :=
      List.exists_cons_of_ne_nil (by simp)
    rw [start] at replayed below ⊢
    have state := Replayed.state_eq replayed
    have kept : ((first :: middle).map log.stamp).filter (· < read) = (first :: middle).map log.stamp := by
      apply List.filter_eq_self.mpr
      intro stamp member
      obtain ⟨other, inside, rfl⟩ := List.mem_map.mp member
      simpa using below other inside
    rw [asOf, List.map_append, List.filter_append, kept, state]
    simp only [List.cons_append, List.head?_cons, Option.map_some, ← List.foldl_append]

/-- No more stamps are replayed than one saved state lasts for. -/
theorem Latest.length_le {interval : Nat}
    (latest : log.Latest entries read place version stamps) (ordered : log.Ordered entries)
    (reached : ∀ entry ∈ entries, log.version (log.state entry) ≤ log.stamp entry)
    (spaced : log.Spaced interval entries) : stamps.length ≤ interval := by
  obtain ⟨before, entry, after, rfl, image, rfl, low, later, rfl⟩ := latest
  have split := List.takeWhile_append_dropWhile (p := fun entry => (log.image entry).isNone)
    (l := after)
  set run := after.takeWhile fun entry => (log.image entry).isNone with runs
  set rest := after.dropWhile fun entry => (log.image entry).isNone with rests
  have short : run.length < interval := by
    refine spaced run ⟨before ++ [entry], rest, by simp [split]⟩ ?_
    intro other member
    simpa using List.mem_takeWhile_imp member
  have nothing : (rest.map log.stamp).filter (· < read) = [] := by
    cases here : rest with
    | nil => rfl
    | cons first more =>
      have saved : (log.image first).isSome := by
        have := List.head?_dropWhile_not (fun entry => (log.image entry).isNone) after
        rw [← rests, here] at this
        simpa [Option.isSome_iff_ne_none] using this
      have inside : first ∈ after := by simp [← split, here]
      have high := lt_of_lt_of_le (later first inside saved) (reached first (by simp [inside]))
      apply List.filter_eq_nil_iff.mpr
      intro stamp member
      obtain ⟨other, inside', rfl⟩ := List.mem_map.mp member
      have pairs : log.Ordered (first :: more) := by
        have whole := ordered
        rw [← split, here] at whole
        exact ((List.pairwise_append.mp whole).2.1.tail.sublist (List.sublist_append_right _ _))
      rcases List.mem_cons.mp inside' with rfl | inMore
      · simpa using high.le
      · simpa using high.le.trans (List.rel_of_pairwise_cons pairs inMore)
  calc (((entry :: after).map log.stamp).filter (· < read)).length
      ≤ ((entry :: run).map log.stamp).length := by
        rw [← split, List.map_cons, List.map_append, ← List.cons_append, List.filter_append,
          nothing, List.append_nil, ← List.map_cons]
        exact List.length_filter_le _ _
    _ ≤ interval := by simpa using short

end VersionLog

end OpenGauss.Lib
