import OpenGauss.PageWriter.CandidateList
import OpenGauss.Lib.LockTable

namespace OpenGauss.PageWriter

open Lib

/-- The buffer whose header the thread has locked. -/
def PgwrPc.locked : PgwrPc → Option Nat
  | .deciding bufId _ _ | .redeciding bufId _ | .heading bufId _ | .tailing bufId _ _ | .storing bufId _ _
  | .publishing bufId _ _ | .marking bufId _ | .unlocking bufId _ => some bufId
  | _ => none

/-- The buffer that was pushed and is not marked yet. -/
def PgwrPc.marks : PgwrPc → Option Nat
  | .marking bufId _ => some bufId
  | _ => none

theorem PgwrPc.locked_of_marks {pc : PgwrPc} {bufId : Nat} (marks : pc.marks = some bufId) :
    pc.locked = some bufId := by
  cases pc with
  | marking => exact marks
  | _ => cases marks

def GetBufPc.locked : GetBufPc → Option Nat
  | .checking _ bufId | .unlocking _ bufId | .rechecking bufId _ | .reunlocking bufId _
  | .returned bufId => some bufId
  | _ => none

/-- The buffer that was popped and has its mark still. -/
def GetBufPc.hands : GetBufPc → Option Nat
  | .popped _ bufId | .checking _ bufId => some bufId
  | _ => none

inductive CandidatePlace where
  | slot (thread : Nat) (kind : CandListType) (loc : Nat)
  | popper (id : Nat)

namespace CandidateSystem

variable (sizes : PoolSizes) (system : CandidateSystem)

def holds : HeaderLocker → Option Nat
  | .pgwr thread => (system.pgwr thread).locked
  | .backend id => (system.getBuf id).locked

/-- The buffer is in this place. -/
def At (bufId : Nat) : CandidatePlace → Prop
  | .slot thread kind loc => (system.list thread kind).head ≤ loc ∧ loc < (system.list thread kind).tail ∧
      (system.list thread kind).candBufList (loc % (system.list thread kind).candListSize) = bufId
  | .popper id => (system.getBuf id).hands = some bufId

/-- The buffer is marked, or about to be. -/
def Marked (bufId : Nat) : Prop :=
  system.candidateFreeMap bufId = true ∨ ∃ thread, (system.pgwr thread).marks = some bufId

def PgwrFacts (thread : Nat) : PgwrPc → Prop
  | .heading bufId _ | .marking bufId _ => system.candidateFreeMap bufId = false
  | .tailing bufId head _ => system.candidateFreeMap bufId = false ∧
      head ≤ (system.listFor sizes thread bufId).head
  | .storing bufId tail _ => system.candidateFreeMap bufId = false ∧
      tail = (system.listFor sizes thread bufId).tail ∧
      tail < (system.listFor sizes thread bufId).head + (system.listFor sizes thread bufId).candListSize
  | .publishing bufId tail _ => system.candidateFreeMap bufId = false ∧
      tail = (system.listFor sizes thread bufId).tail ∧
      tail < (system.listFor sizes thread bufId).head + (system.listFor sizes thread bufId).candListSize ∧
      (system.listFor sizes thread bufId).candBufList
      (tail % (system.listFor sizes thread bufId).candListSize) = bufId
  | _ => True

/-- What a backend read holds as long as the head stays. -/
def GetBufFacts : GetBufPc → Prop
  | .tailing search head => head ≤ (system.searchList sizes search).head
  | .reading search head => head ≤ (system.searchList sizes search).head ∧
      ((system.searchList sizes search).head = head → head < (system.searchList sizes search).tail)
  | .exchanging search head bufId => head ≤ (system.searchList sizes search).head ∧
      ((system.searchList sizes search).head = head → head < (system.searchList sizes search).tail ∧
        (system.searchList sizes search).candBufList
        (head % (system.searchList sizes search).candListSize) = bufId)
  | _ => True

structure CandidateInvariant : Prop where
  locks : LockTable system.hdrLock system.holds
  room : ∀ thread kind, (system.list thread kind).head ≤ (system.list thread kind).tail ∧
    (system.list thread kind).tail ≤ (system.list thread kind).head + (system.list thread kind).candListSize
  unique : ∀ bufId first second, system.At bufId first → system.At bufId second → first = second
  marked : ∀ bufId, (∃ place, system.At bufId place) ↔ system.Marked bufId
  pgwrs : ∀ thread, PgwrFacts sizes system thread (system.pgwr thread)
  getBufs : ∀ id, GetBufFacts sizes system (system.getBuf id)

/-- Nothing is taken out of a list but at its head. -/
structure KeepsList (list after : CandidateList) : Prop where
  size : after.candListSize = list.candListSize
  head : list.head ≤ after.head
  tail : list.tail ≤ after.tail
  content : ∀ loc, list.head ≤ loc → loc < list.tail →
    after.candBufList (loc % list.candListSize) = list.candBufList (loc % list.candListSize)

/-- The places of a list are the same. -/
structure SameList (list after : CandidateList) : Prop where
  size : after.candListSize = list.candListSize
  head : after.head = list.head
  tail : after.tail = list.tail
  content : ∀ loc, list.head ≤ loc → loc < list.tail →
    after.candBufList (loc % list.candListSize) = list.candBufList (loc % list.candListSize)

variable {sizes : PoolSizes} {system after : CandidateSystem} {list next : CandidateList}
    {thread id bufId : Nat}

theorem KeepsList.refl (list : CandidateList) : KeepsList list list := ⟨rfl, le_rfl, le_rfl, fun _ _ _ => rfl⟩

theorem SameList.refl (list : CandidateList) : SameList list list := ⟨rfl, rfl, rfl, fun _ _ _ => rfl⟩

theorem SameList.keeps (same : SameList list next) : KeepsList list next :=
  ⟨same.size, same.head.ge, same.tail.ge, same.content⟩

theorem at_congr {place : CandidatePlace} (lists : ∀ thread kind, SameList (system.list thread kind)
    (after.list thread kind))
    (hands : ∀ id, (after.getBuf id).hands = (system.getBuf id).hands) :
    after.At bufId place ↔ system.At bufId place := by
  cases place with
  | slot thread kind loc =>
    obtain ⟨size, head, tail, content⟩ := lists thread kind
    simp only [At, size, head, tail]
    refine and_congr_right fun low => and_congr_right fun high => ?_
    rw [content loc low high]
  | popper id =>
    simp only [At, hands]

theorem getBufFacts_keep {pc : GetBufPc} (facts : GetBufFacts sizes system pc)
    (keeps : ∀ thread kind, KeepsList (system.list thread kind) (after.list thread kind)) :
    GetBufFacts sizes after pc := by
  cases pc with
  | tailing search head => exact le_trans facts (keeps _ _).head
  | reading search head =>
    obtain ⟨size, grows, longer, content⟩ := keeps (searchThread sizes search) search.kind
    obtain ⟨low, below⟩ := facts
    refine ⟨low.trans grows, fun same => ?_⟩
    exact (below (le_antisymm (grows.trans same.le) low)).trans_le longer
  | exchanging search head bufId =>
    obtain ⟨size, grows, longer, content⟩ := keeps (searchThread sizes search) search.kind
    obtain ⟨low, known⟩ := facts
    refine ⟨low.trans grows, fun same => ?_⟩
    obtain ⟨below, names⟩ := known (le_antisymm (grows.trans same.le) low)
    refine ⟨below.trans_le longer, ?_⟩
    unfold searchList at *
    rw [size, content head (grows.trans same.le) below]
    exact names
  | _ => trivial

theorem pgwrFacts_keep {pc : PgwrPc} (facts : PgwrFacts sizes system thread pc)
    (size : ∀ kind, (after.list thread kind).candListSize = (system.list thread kind).candListSize)
    (head : ∀ kind, (system.list thread kind).head ≤ (after.list thread kind).head)
    (tail : ∀ kind, (after.list thread kind).tail = (system.list thread kind).tail)
    (content : ∀ kind, (after.list thread kind).candBufList = (system.list thread kind).candBufList)
    (maps : ∀ bufId, pc.locked = some bufId → after.candidateFreeMap bufId = system.candidateFreeMap bufId) :
    PgwrFacts sizes after thread pc := by
  cases pc with
  | heading bufId caller => exact (maps bufId rfl).trans facts
  | marking bufId caller => exact (maps bufId rfl).trans facts
  | tailing bufId first caller => exact ⟨(maps bufId rfl).trans facts.1, facts.2.trans (head _)⟩
  | storing bufId last caller =>
    obtain ⟨unmarked, place, free⟩ := facts
    refine ⟨(maps bufId rfl).trans unmarked, place.trans (tail _).symm, ?_⟩
    unfold listFor at *
    rw [size]
    exact free.trans_le (Nat.add_le_add_right (head _) _)
  | publishing bufId last caller =>
    obtain ⟨unmarked, place, free, names⟩ := facts
    refine ⟨(maps bufId rfl).trans unmarked, place.trans (tail _).symm, ?_, ?_⟩
    · unfold listFor at *
      rw [size]
      exact free.trans_le (Nat.add_le_add_right (head _) _)
    · unfold listFor at *
      rw [size, content]
      exact names
  | _ => trivial

namespace CandidateInvariant

section

variable (invariant : CandidateInvariant sizes system) (who : HeaderLocker)
  (pgwr : ∀ thread, who ≠ .pgwr thread → after.pgwr thread = system.pgwr thread)
  (getBuf : ∀ id, who ≠ .backend id → after.getBuf id = system.getBuf id)

include invariant who pgwr getBuf

theorem step (keeps : ∀ thread kind, KeepsList (system.list thread kind) (after.list thread kind))
    (others : ∀ thread kind, who ≠ .pgwr thread → (after.list thread kind).tail =
      (system.list thread kind).tail ∧
      (after.list thread kind).candBufList = (system.list thread kind).candBufList)
    (maps : ∀ bufId, system.holds who ≠ some bufId → after.candidateFreeMap bufId =
      system.candidateFreeMap bufId)
    (locks : LockTable after.hdrLock after.holds)
    (room : ∀ thread kind, (after.list thread kind).head ≤ (after.list thread kind).tail ∧
      (after.list thread kind).tail ≤ (after.list thread kind).head + (after.list thread kind).candListSize)
    (unique : ∀ bufId first second, after.At bufId first → after.At bufId second → first = second)
    (marked : ∀ bufId, (∃ place, after.At bufId place) ↔ after.Marked bufId)
    (thread : ∀ thread, who = .pgwr thread → PgwrFacts sizes after thread (after.pgwr thread))
    (backend : ∀ id, who = .backend id → GetBufFacts sizes after (after.getBuf id)) :
      CandidateInvariant sizes after := by
  refine ⟨locks, room, unique, marked, fun other => ?_, fun other => ?_⟩
  · by_cases self : who = .pgwr other
    · exact thread other self
    · rw [pgwr other self]
      refine pgwrFacts_keep (invariant.pgwrs other) (fun kind => (keeps other kind).size)
        (fun kind => (keeps other kind).head) (fun kind => (others other kind self).1)
        (fun kind => (others other kind self).2) fun bufId has => maps bufId fun mine => ?_
      exact self (invariant.locks.alone (show system.holds (.pgwr other) = some bufId from has) mine)
  · by_cases self : who = .backend other
    · exact backend other self
    · rw [getBuf other self]
      exact getBufFacts_keep (invariant.getBufs other) keeps

/-- A step that leaves every buffer where it is. -/
theorem still (lists : ∀ thread kind, SameList (system.list thread kind) (after.list thread kind))
    (others : ∀ thread kind, who ≠ .pgwr thread → after.list thread kind = system.list thread kind)
    (maps : after.candidateFreeMap = system.candidateFreeMap)
    (locks : LockTable after.hdrLock after.holds)
    (marks : ∀ thread, (after.pgwr thread).marks = (system.pgwr thread).marks)
    (hands : ∀ id, (after.getBuf id).hands = (system.getBuf id).hands)
    (thread : ∀ thread, who = .pgwr thread → PgwrFacts sizes after thread (after.pgwr thread))
    (backend : ∀ id, who = .backend id → GetBufFacts sizes after (after.getBuf id)) :
      CandidateInvariant sizes after := by
  refine invariant.step who pgwr getBuf (fun thread kind => (lists thread kind).keeps)
    (fun thread kind other => ⟨(lists thread kind).tail, by rw [others thread kind other]⟩)
    (fun _ _ => congrFun maps _) locks ?_ ?_ ?_ thread backend
  · intro thread kind
    obtain ⟨size, head, tail, -⟩ := lists thread kind
    rw [size, head, tail]
    exact invariant.room thread kind
  · intro bufId first second here there
    exact invariant.unique bufId first second ((at_congr lists hands).mp here) ((at_congr lists hands).mp there)
  · intro bufId
    have places := invariant.marked bufId
    unfold Marked at places ⊢
    simp only [maps, marks, at_congr lists hands]
    exact places

end

end CandidateInvariant

theorem init_candidateInvariant (sizes : PoolSizes) : CandidateInvariant sizes (init sizes) := by
  have empty : ∀ thread kind, ((init sizes).list thread kind).head = 0 ∧
      ((init sizes).list thread kind).tail = 0 := by
    intro thread kind
    show (sizes.initCandidateList thread kind).head = 0 ∧ (sizes.initCandidateList thread kind).tail = 0
    unfold PoolSizes.initCandidateList
    split_ifs <;> exact ⟨rfl, rfl⟩
  have nowhere : ∀ bufId place, ¬ (init sizes).At bufId place := by
    rintro bufId (⟨thread, kind, loc⟩ | id) here
    · have below := here.2.1
      rw [(empty thread kind).2] at below
      exact Nat.not_lt_zero _ below
    · cases here
  refine ⟨fun bufId who => ⟨nofun, ?_⟩, ?_, fun bufId first _ here => absurd here (nowhere bufId first), ?_,
    fun _ => trivial, fun _ => trivial⟩
  · cases who <;> nofun
  · intro thread kind
    rw [(empty thread kind).1, (empty thread kind).2]
    exact ⟨le_rfl, Nat.zero_le _⟩
  · intro bufId
    refine ⟨fun ⟨place, here⟩ => absurd here (nowhere bufId place), ?_⟩
    rintro (marked | ⟨thread, marks⟩)
    · cases marked
    · cases marks

end CandidateSystem

end OpenGauss.PageWriter
