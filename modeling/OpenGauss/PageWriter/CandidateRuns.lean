import OpenGauss.PageWriter.CandidateSteps

namespace OpenGauss.PageWriter

open Lib

namespace CandidateSystem

variable (sizes : PoolSizes) (system : CandidateSystem)

/-- The buffer is at a place of the list of a thread. -/
def InList (bufId : Nat) (place : Nat × CandListType × Nat) : Prop :=
    system.At bufId (.slot place.1 place.2.1 place.2.2)

/-- A push has not marked the buffer yet, or a pop has not cleared its mark. -/
def Busy (bufId : Nat) : Prop :=
  (∃ thread, (system.pgwr thread).marks = some bufId) ∨ ∃ id, (system.getBuf id).hands = some bufId

/-- The map is exact, no buffer is in two places, and none is handed out twice or left out. -/
structure CandidatesSound : Prop where
  exact : ∀ bufId, ¬ system.Busy bufId →
    (system.candidateFreeMap bufId = true ↔ ∃! place, system.InList bufId place)
  once : ∀ bufId first second, system.InList bufId first → system.InList bufId second → first = second
  handed : ∀ bufId id other, system.getBuf id = .returned bufId → system.getBuf other =
    .returned bufId → other = id
  left : ∀ bufId, ¬ system.Busy bufId → (∀ place, ¬ system.InList bufId place) →
    system.candidateFreeMap bufId = false

/-- The condition on the steps of a run: a push does not find its list full. -/
def RoomToPush : CandidateEvent → Prop
  | .pgwr thread _ =>
    match system.pgwr thread with
    | .tailing bufId head _ => (system.listFor sizes thread bufId).tail - head <
        (system.listFor sizes thread bufId).candListSize
    | _ => True
  | _ => True

variable {sizes : PoolSizes} {system : CandidateSystem} {thread id : Nat}

namespace CandidateInvariant

section

variable (invariant : CandidateInvariant sizes system)

include invariant

theorem sound : CandidatesSound system := by
  have once : ∀ bufId first second, system.InList bufId first → system.InList bufId second →
      first = second := by
    intro bufId first second here there
    obtain ⟨rfl', rfl'', rfl'''⟩ := CandidatePlace.slot.inj (invariant.unique bufId _ _ here there)
    exact Prod.ext rfl' (Prod.ext rfl'' rfl''')
  have exact : ∀ bufId, ¬ system.Busy bufId →
      (system.candidateFreeMap bufId = true ↔ ∃! place, system.InList bufId place) := by
    intro bufId calm
    constructor
    · intro marked
      obtain ⟨place, here⟩ := (invariant.marked bufId).mpr (Or.inl marked)
      cases place with
      | popper id => exact absurd (Or.inr ⟨id, here⟩) calm
      | slot thread kind loc =>
        exact ⟨(thread, kind, loc), here, fun other there => once bufId _ _ there here⟩
    · rintro ⟨place, here, -⟩
      refine ((invariant.marked bufId).mp ⟨_, here⟩).resolve_right fun marks => calm (Or.inl marks)
  refine ⟨exact, once, ?_, ?_⟩
  · intro bufId id other one two
    have first : system.holds (.backend id) = some bufId := by
      show (system.getBuf id).locked = _
      rw [one]
      rfl
    have second : system.holds (.backend other) = some bufId := by
      show (system.getBuf other).locked = _
      rw [two]
      rfl
    exact HeaderLocker.backend.inj (invariant.locks.alone first second)
  · intro bufId calm nowhere
    by_contra marked
    obtain ⟨place, here, -⟩ := (exact bufId calm).mp (by simpa using marked)
    exact nowhere place here

theorem scan (kind : CandListType) (ratioSharedBuffers : Nat) (idle : system.pgwr thread = .idle) :
    CandidateInvariant sizes (system.scanCandidateList sizes thread kind ratioSharedBuffers) := by
  have start : ∀ {list : CandidateList} {first stop : Nat}, SameList (system.list thread kind) list →
      CandidateInvariant sizes ((system.setList thread kind list).setPgwr thread
      (.scanning first stop [])) := by
    intro list first stop same
    refine invariant.pgwrStill rfl rfl ?_ ?_ rfl ?_ (by rw [idle]; rfl) trivial
    · intro other kind'
      refine list_setList ▸ ?_
      split_ifs with self
      · obtain ⟨rfl, rfl⟩ := self
        exact same
      · exact .refl _
    · exact fun other kind' different => list_setList.trans (if_neg fun self => different self.1)
    · rw [holds_setPgwr]
      refine invariant.locks.same ?_
      show none = (system.pgwr thread).locked
      rw [idle]
      rfl
  unfold scanCandidateList
  dsimp only
  split_ifs <;> first
    | exact start ⟨rfl, rfl, rfl, fun _ _ _ => rfl⟩
    | exact invariant

theorem pgwrAccess (view : BufView) (room : RoomToPush sizes system (.pgwr thread view)) :
    CandidateInvariant sizes (system.stepPgwr sizes thread view) := by
  have facts := invariant.pgwrs thread
  unfold stepPgwr
  cases here : system.pgwr thread with
  | idle => exact invariant
  | scanning bufId stop dirty =>
    dsimp only
    split_ifs <;> exact invariant.setPgwr (by rw [here]; rfl) (by rw [here]; rfl) trivial
  | locking bufId stop dirty mismatched =>
    dsimp only
    split
    · cases mismatched <;>
        exact invariant.pgwrLock ‹_› (by rw [here]; rfl) rfl (by rw [here]; rfl) rfl trivial
    · exact invariant
  | deciding bufId stop dirty =>
    dsimp only
    split_ifs with _ _ _ unmarked
    · exact invariant.setPgwr (by rw [here]; rfl) (by rw [here]; rfl) trivial
    · exact invariant.setPgwr (by rw [here]; rfl) (by rw [here]; rfl) trivial
    · exact invariant.setPgwr (by rw [here]; rfl) (by rw [here]; rfl) trivial
    · exact invariant.setPgwr (by rw [here]; rfl) (by rw [here]; rfl) unmarked
    · exact invariant.setPgwr (by rw [here]; rfl) (by rw [here]; rfl) trivial
  | flushing rest =>
    cases rest with
    | nil => exact invariant.setPgwr (by rw [here]; rfl) (by rw [here]; rfl) trivial
    | cons first rest =>
      dsimp only
      split_ifs <;> exact invariant.setPgwr (by rw [here]; rfl) (by rw [here]; rfl) trivial
  | relocking bufId rest =>
    dsimp only
    split
    · exact invariant.pgwrLock ‹_› (by rw [here]; rfl) rfl (by rw [here]; rfl) rfl trivial
    · exact invariant
  | redeciding bufId rest =>
    dsimp only
    split_ifs with free
    · exact invariant.setPgwr (by rw [here]; rfl) (by rw [here]; rfl) free.1
    · exact invariant.setPgwr (by rw [here]; rfl) (by rw [here]; rfl) trivial
  | heading bufId caller =>
    rw [here] at facts
    exact invariant.setPgwr (by rw [here]; rfl) (by rw [here]; rfl) ⟨facts, le_rfl⟩
  | tailing bufId head caller =>
    rw [here] at facts
    obtain ⟨unmarked, before⟩ := facts
    unfold RoomToPush at room
    dsimp only at room ⊢
    rw [here] at room
    dsimp only at room
    rw [if_neg (Nat.not_le_of_lt room)]
    exact invariant.setPgwr (by rw [here]; rfl) (by rw [here]; rfl) ⟨unmarked, rfl, by omega⟩
  | storing bufId tail caller => exact invariant.store here
  | publishing bufId tail caller => exact invariant.publish here
  | marking bufId caller => exact invariant.mark here
  | unlocking bufId caller =>
    cases caller <;> exact invariant.pgwrUnlock (by rw [here]; rfl) rfl (by rw [here]; rfl) rfl trivial

theorem getBufAccess (view : BufView) : CandidateInvariant sizes (system.stepGetBuf sizes id view) := by
  have facts := invariant.getBufs id
  unfold stepGetBuf
  cases here : system.getBuf id with
  | idle => exact invariant
  | returned bufId => exact invariant
  | choosing search =>
    dsimp only
    split_ifs <;> exact invariant.setGetBuf (by rw [here]; rfl) (by rw [here]; rfl) trivial
  | heading search => exact invariant.setGetBuf (by rw [here]; rfl) (by rw [here]; rfl) (le_refl _)
  | tailing search head =>
    rw [here] at facts
    dsimp only
    split_ifs with empty
    · exact invariant.setGetBuf (by rw [here]; rfl) (by rw [here]; rfl) trivial
    · exact invariant.setGetBuf (by rw [here]; rfl) (by rw [here]; rfl) ⟨facts, fun _ => Nat.lt_of_not_le empty⟩
  | reading search head =>
    rw [here] at facts
    exact invariant.setGetBuf (by rw [here]; rfl) (by rw [here]; rfl) ⟨facts.1, fun same => ⟨facts.2 same, rfl⟩⟩
  | exchanging search head bufId =>
    dsimp only
    split_ifs with same
    · exact invariant.pop here same
    · exact invariant.setGetBuf (by rw [here]; rfl) (by rw [here]; rfl) trivial
  | popped search bufId =>
    dsimp only
    split
    · exact invariant.getBufLock ‹_› (by rw [here]; rfl) rfl (by rw [here]; rfl) trivial
    · exact invariant
  | checking search bufId =>
    dsimp only
    rw [if_pos (invariant.popped_marked here)]
    unfold takeCandidate
    split_ifs <;> exact invariant.unmark here rfl rfl trivial
  | unlocking search bufId => exact invariant.getBufUnlock (by rw [here]; rfl) rfl (by rw [here]; rfl) trivial
  | rescanning rest =>
    cases rest <;> exact invariant.setGetBuf (by rw [here]; rfl) (by rw [here]; rfl) trivial
  | relocking bufId rest =>
    dsimp only
    split
    · exact invariant.getBufLock ‹_› (by rw [here]; rfl) rfl (by rw [here]; rfl) trivial
    · exact invariant
  | rechecking bufId rest =>
    dsimp only
    split_ifs <;> exact invariant.setGetBuf (by rw [here]; rfl) (by rw [here]; rfl) trivial
  | reunlocking bufId rest => exact invariant.getBufUnlock (by rw [here]; rfl) rfl (by rw [here]; rfl) trivial

end

theorem next {event : CandidateEvent} (invariant : CandidateInvariant sizes system)
    (room : RoomToPush sizes system event) : CandidateInvariant sizes (system.step sizes event) := by
  cases event with
  | setMode isStandbyMode =>
    exact ⟨invariant.locks, invariant.room,
      fun bufId first second one two => invariant.unique bufId first second
      ((at_congr (fun _ _ => .refl _) fun _ => rfl).mp one)
      ((at_congr (fun _ _ => .refl _) fun _ => rfl).mp two),
      fun bufId => (exists_congr fun _ => at_congr (fun _ _ => .refl _) fun _ => rfl).trans
      (invariant.marked bufId),
      invariant.pgwrs, invariant.getBufs⟩
  | scan thread kind ratioSharedBuffers =>
    unfold CandidateSystem.step
    dsimp only
    split_ifs with idle
    · exact invariant.scan kind ratioSharedBuffers idle.1
    · exact invariant
  | pgwr thread view => exact invariant.pgwrAccess view room
  | getBuf id kind listId needScanDirty =>
    unfold CandidateSystem.step
    dsimp only
    split_ifs with idle
    · exact invariant.setGetBuf (by rw [idle]; rfl) (by rw [idle]; rfl) trivial
    · exact invariant
  | backend id view => exact invariant.getBufAccess view
  | release id =>
    unfold CandidateSystem.step
    dsimp only
    cases here : system.getBuf id with
    | returned bufId => exact invariant.getBufUnlock (by rw [here]; rfl) rfl (by rw [here]; rfl) trivial
    | _ => exact invariant

end CandidateInvariant

/-- Nobody but one thread of the page writer has done anything. -/
structure Alone (sizes : PoolSizes) (thread : Nat) (system : CandidateSystem) : Prop where
  lists : ∀ other, other ≠ thread → system.list other = sizes.initCandidateList other
  pgwr : ∀ other, other ≠ thread → system.pgwr other = .idle
  getBuf : ∀ id, system.getBuf id = .idle

section

variable (alone : Alone sizes thread system)

include alone

theorem Alone.set {kind : CandListType} {list : CandidateList} {pc : PgwrPc} :
    Alone sizes thread ((system.setList thread kind list).setPgwr thread pc) :=
  ⟨fun other different => (Function.update_of_ne different _ _).trans (alone.lists other different),
    fun other different => (Function.update_of_ne different _ _).trans (alone.pgwr other different),
      alone.getBuf⟩

theorem Alone.setPgwr {pc : PgwrPc} : Alone sizes thread (system.setPgwr thread pc) :=
  ⟨alone.lists, fun other different => (Function.update_of_ne different _ _).trans (alone.pgwr other different),
    alone.getBuf⟩

theorem Alone.scan {kind : CandListType} {ratioSharedBuffers : Nat} :
    Alone sizes thread (system.step sizes (.scan thread kind ratioSharedBuffers)) := by
  unfold CandidateSystem.step scanCandidateList
  dsimp only
  split_ifs <;> first
    | exact alone.set
    | exact alone

theorem Alone.access (view : BufView) : Alone sizes thread (system.stepPgwr sizes thread view) := by
  have lock : ∀ {bufId : Nat} {locker : Option HeaderLocker}, Alone sizes thread
      (system.setLock bufId locker) :=
    ⟨alone.lists, alone.pgwr, alone.getBuf⟩
  have mark : ∀ {bufId : Nat} {mark : Bool}, Alone sizes thread (system.setMark bufId mark) :=
    ⟨alone.lists, alone.pgwr, alone.getBuf⟩
  unfold stepPgwr
  cases system.pgwr thread with
  | idle => exact alone
  | storing => exact alone.set
  | publishing => exact alone.set
  | marking => exact mark.setPgwr
  | unlocking => exact lock.setPgwr
  | locking =>
    dsimp only
    split
    · exact lock.setPgwr
    · exact alone
  | relocking =>
    dsimp only
    split
    · exact lock.setPgwr
    · exact alone
  | scanning => dsimp only; split_ifs <;> exact alone.setPgwr
  | redeciding => dsimp only; split_ifs <;> exact alone.setPgwr
  | tailing => dsimp only; split_ifs <;> exact alone.setPgwr
  | flushing rest =>
    cases rest with
    | nil => exact alone.setPgwr
    | cons => dsimp only; split_ifs <;> exact alone.setPgwr
  | _ => exact alone.setPgwr

end

theorem Alone.not_sound (alone : Alone sizes thread system) {bufId : Nat}
    (marked : system.candidateFreeMap bufId = true) (pushed : (system.pgwr thread).marks ≠ some bufId)
    (absent : ∀ kind loc, loc < (system.list thread kind).tail →
      (system.list thread kind).candBufList (loc % (system.list thread kind).candListSize) ≠ bufId) :
    ¬ CandidatesSound system := by
  intro sound
  have calm : ¬ system.Busy bufId := by
    rintro (⟨other, marks⟩ | ⟨id, hands⟩)
    · by_cases self : other = thread
      · exact pushed (self ▸ marks)
      · rw [alone.pgwr other self] at marks
        cases marks
    · rw [alone.getBuf id] at hands
      cases hands
  obtain ⟨⟨other, kind, loc⟩, ⟨-, high, names⟩, -⟩ := (sound.exact bufId calm).mp marked
  by_cases self : other = thread
  · subst self
    exact absent kind loc high names
  · rw [alone.lists other self] at high
    unfold PoolSizes.initCandidateList at high
    split_ifs at high <;> exact Nat.not_lt_zero _ high

/-- Nine normal buffers and three threads: in standby mode the last thread scans four buffers of eight, and its
list has room for three. -/
theorem candidates_not_sound :
    ∃ events, ¬ CandidatesSound (run (step ⟨9, 0, 0, 3⟩) (init ⟨9, 0, 0, 3⟩) events) := by
  refine ⟨[.setMode true, .scan 3 .normal 8] ++ List.replicate 34 (.pgwr 3 {}), ?_⟩
  have alone : Alone ⟨9, 0, 0, 3⟩ 3 (run (step ⟨9, 0, 0, 3⟩) (init ⟨9, 0, 0, 3⟩)
      ([.setMode true, .scan 3 .normal 8] ++ List.replicate 34 (.pgwr 3 {}))) := by
    have standby : Alone ⟨9, 0, 0, 3⟩ 3 ((init ⟨9, 0, 0, 3⟩).step ⟨9, 0, 0, 3⟩ (.setMode true)) :=
      ⟨fun _ _ => rfl, fun _ _ => rfl, fun _ => rfl⟩
    rw [run_append, run_cons, run_cons, run_nil]
    refine run_invariant_along (Alone ⟨9, 0, 0, 3⟩ 3) (fun system event (mine : event = .pgwr 3 {}) alone => ?_)
      (along_iff.mpr fun before event after same => ?_) standby.scan
    · rw [mine]
      exact alone.access {}
    · exact List.eq_of_mem_replicate (same ▸ List.mem_append_right _ (List.mem_cons_self ..))
  refine @Alone.not_sound _ _ _ alone 7 (by decide +kernel) (by decide +kernel) fun kind => ?_
  cases kind <;> decide +kernel

/-- While no push finds its list full, the map is exact. -/
theorem candidates_sound {events : List CandidateEvent}
    (room : Along (step sizes) (RoomToPush sizes) (init sizes) events) :
    CandidatesSound (run (step sizes) (init sizes) events) :=
  (run_invariant_along (CandidateInvariant sizes) (fun _ _ allowed invariant => invariant.next allowed) room
    (init_candidateInvariant sizes)).sound

theorem candidates_sound_pushed : CandidatesSound (run (step ⟨9, 0, 0, 3⟩) (init ⟨9, 0, 0, 3⟩)
      [.scan 1 .normal 0, .pgwr 1 {}, .pgwr 1 {}, .pgwr 1 {}, .pgwr 1 {}, .pgwr 1 {}, .pgwr 1 {}, .pgwr 1 {},
        .pgwr 1 {}, .pgwr 1 {}]) :=
  candidates_sound ⟨trivial, trivial, trivial, trivial, trivial,
    show 0 - 0 < 3 by decide, trivial, trivial, trivial, trivial, trivial⟩

end CandidateSystem

end OpenGauss.PageWriter
