import OpenGauss.PageWriter.CandidateInvariant

namespace OpenGauss.PageWriter

open Function (update update_apply update_of_ne update_self)

open Lib

namespace CandidateSystem

variable {sizes : PoolSizes} {system after : CandidateSystem} {thread id bufId : Nat} {pc : PgwrPc}
    {next : GetBufPc}

theorem holds_setPgwr : (system.setPgwr thread pc).holds = update system.holds (.pgwr thread) pc.locked := by
  funext who
  cases who with
  | pgwr other =>
    show (update system.pgwr thread pc other).locked = _
    rw [update_apply, update_apply]
    by_cases self : other = thread
    · rw [if_pos self, if_pos (congrArg _ self)]
    · rw [if_neg self, if_neg fun same => self (HeaderLocker.pgwr.inj same)]
      rfl
  | backend id =>
    rw [update_of_ne (by nofun : HeaderLocker.backend id ≠ .pgwr thread)]
    rfl

theorem holds_setGetBuf : (system.setGetBuf id next).holds = update system.holds (.backend id) next.locked := by
  funext who
  cases who with
  | backend other =>
    show (update system.getBuf id next other).locked = _
    rw [update_apply, update_apply]
    by_cases self : other = id
    · rw [if_pos self, if_pos (congrArg _ self)]
    · rw [if_neg self, if_neg fun same => self (HeaderLocker.backend.inj same)]
      rfl
  | pgwr thread =>
    rw [update_of_ne (by nofun : HeaderLocker.pgwr thread ≠ .backend id)]
    rfl

namespace CandidateInvariant

theorem list_setList {other : Nat} {kind kind' : CandListType} {list : CandidateList} :
    (system.setList thread kind list).list other kind' =
      if other = thread ∧ kind' = kind then list else system.list other kind' := by
  show update system.list thread _ other kind' = _
  rw [update_apply]
  by_cases self : other = thread
  · rw [if_pos self, update_apply, self]
    by_cases same : kind' = kind
    · rw [if_pos same, if_pos ⟨rfl, same⟩]
    · rw [if_neg same, if_neg fun both => same both.2]
  · rw [if_neg self, if_neg fun both => self both.1]

section

variable (invariant : CandidateInvariant sizes system)

include invariant

/-- What a thread of the page writer does to no list and no mark. -/
theorem pgwrStill (pgwr : after.pgwr = update system.pgwr thread pc) (getBuf : after.getBuf = system.getBuf)
    (lists : ∀ thread kind, SameList (system.list thread kind) (after.list thread kind))
    (others : ∀ other kind, other ≠ thread → after.list other kind = system.list other kind)
    (maps : after.candidateFreeMap = system.candidateFreeMap) (locks : LockTable after.hdrLock after.holds)
    (marks : pc.marks = (system.pgwr thread).marks) (facts : PgwrFacts sizes after thread pc) :
    CandidateInvariant sizes after := by
  refine invariant.still (.pgwr thread) ?_ (fun _ _ => congrFun getBuf _) lists ?_ maps locks ?_
    (fun _ => by rw [getBuf]) ?_ nofun
  · intro other different
    rw [pgwr]
    exact update_of_ne (fun same => different (congrArg _ same.symm)) _ _
  · exact fun other kind different => others other kind fun same => different (congrArg _ same.symm)
  · intro other
    rw [pgwr, update_apply]
    split_ifs with self
    · rw [self, marks]
    · rfl
  · rintro _ ⟨⟩
    rw [pgwr, update_self]
    exact facts

theorem setPgwr (locked : pc.locked = (system.pgwr thread).locked)
    (marks : pc.marks = (system.pgwr thread).marks) (facts : PgwrFacts sizes system thread pc) :
    CandidateInvariant sizes (system.setPgwr thread pc) := by
  refine invariant.pgwrStill rfl rfl (fun _ _ => .refl _) (fun _ _ _ => rfl) rfl ?_ marks ?_
  · rw [holds_setPgwr]
    exact invariant.locks.same locked
  · exact pgwrFacts_keep facts (fun _ => rfl) (fun _ => le_rfl) (fun _ => rfl) (fun _ => rfl) fun _ _ => rfl

theorem pgwrLock (unlocked : system.hdrLock bufId = none)
    (idle : (system.pgwr thread).locked = none) (locked : pc.locked = some bufId)
    (unmarked : (system.pgwr thread).marks = none) (marks : pc.marks = none)
    (facts : PgwrFacts sizes system thread pc) :
    CandidateInvariant sizes ((system.setLock bufId (some (.pgwr thread))).setPgwr thread pc) := by
  refine invariant.pgwrStill rfl rfl (fun _ _ => .refl _)
    (fun _ _ _ => rfl) rfl ?_ (marks.trans unmarked.symm) ?_
  · rw [holds_setPgwr, locked]
    exact invariant.locks.acquire unlocked idle
  · exact pgwrFacts_keep facts (fun _ => rfl) (fun _ => le_rfl) (fun _ => rfl) (fun _ => rfl) fun _ _ => rfl

theorem pgwrUnlock (locked : (system.pgwr thread).locked = some bufId)
    (idle : pc.locked = none) (unmarked : (system.pgwr thread).marks = none) (marks : pc.marks = none)
    (facts : PgwrFacts sizes system thread pc) :
    CandidateInvariant sizes ((system.setLock bufId none).setPgwr thread pc) := by
  refine invariant.pgwrStill rfl rfl (fun _ _ => .refl _)
    (fun _ _ _ => rfl) rfl ?_ (marks.trans unmarked.symm) ?_
  · rw [holds_setPgwr, idle]
    exact invariant.locks.release locked
  · exact pgwrFacts_keep facts (fun _ => rfl) (fun _ => le_rfl) (fun _ => rfl) (fun _ => rfl) fun _ _ => rfl

/-- A buffer that is neither marked nor about to be is nowhere. -/
theorem nowhere (locked : (system.pgwr thread).locked = some bufId)
    (unmarked : system.candidateFreeMap bufId = false) (apart : (system.pgwr thread).marks = none)
    (place : CandidatePlace) : ¬ system.At bufId place := by
  intro here
  rcases (invariant.marked bufId).mp ⟨place, here⟩ with marked | ⟨other, marks⟩
  · rw [unmarked] at marked
    cases marked
  · have same : HeaderLocker.pgwr other = .pgwr thread :=
      invariant.locks.alone (show system.holds (.pgwr thread) = some bufId from locked)
      (PgwrPc.locked_of_marks marks)
    rw [HeaderLocker.pgwr.inj same, apart] at marks
    cases marks

end

variable (invariant : CandidateInvariant sizes system)
include invariant

theorem store {caller : PushCaller} {tail : Nat}
    (here : system.pgwr thread = .storing bufId tail caller) :
    CandidateInvariant sizes ((system.setListFor sizes thread bufId
        { system.listFor sizes thread bufId with
          candBufList := update (system.listFor sizes thread bufId).candBufList
            (tail % (system.listFor sizes thread bufId).candListSize) bufId }).setPgwr thread
        (.publishing bufId tail caller)) := by
  have facts := invariant.pgwrs thread
  rw [here] at facts
  obtain ⟨unmarked, place, free⟩ := facts
  refine invariant.pgwrStill rfl rfl ?_ ?_ rfl ?_ (by rw [here]; rfl) ?_
  · intro other kind
    refine list_setList ▸ ?_
    split_ifs with self
    · obtain ⟨rfl, rfl⟩ := self
      refine ⟨rfl, rfl, rfl, fun loc low high => update_of_ne (fun same => ?_) _ _⟩
      change loc < (system.listFor sizes other bufId).tail at high
      change (system.listFor sizes other bufId).head ≤ loc at low
      have below : loc < tail := place ▸ high
      have far := Nat.le_of_dvd (by omega) ((Nat.modEq_iff_dvd' below.le).mp same)
      unfold listFor at far free low
      omega
    · exact .refl _
  · intro other kind different
    exact list_setList.trans (if_neg fun self => different self.1)
  · rw [holds_setPgwr]
    refine invariant.locks.same ?_
    show _ = (system.pgwr thread).locked
    rw [here]
    rfl
  · have now : ((system.setListFor sizes thread bufId
        { system.listFor sizes thread bufId with
          candBufList := update (system.listFor sizes thread bufId).candBufList
            (tail % (system.listFor sizes thread bufId).candListSize) bufId }).setPgwr thread
        (.publishing bufId tail caller)).listFor sizes thread bufId = _ :=
        list_setList.trans (if_pos ⟨rfl, rfl⟩)
    refine ⟨unmarked, ?_, ?_, ?_⟩
    · rw [now]
      exact place
    · rw [now]
      exact free
    · rw [now]
      exact update_self ..

theorem publish {caller : PushCaller} {tail : Nat}
    (here : system.pgwr thread = .publishing bufId tail caller) :
    CandidateInvariant sizes ((system.setListFor sizes thread bufId
        { system.listFor sizes thread bufId
        with tail := (system.listFor sizes thread bufId).tail + 1 }).setPgwr thread
        (.marking bufId caller)) := by
  have facts := invariant.pgwrs thread
  rw [here] at facts
  obtain ⟨unmarked, rfl, free, names⟩ := facts
  have locked : (system.pgwr thread).locked = some bufId := by rw [here]; rfl
  have absent := invariant.nowhere locked unmarked (by rw [here]; rfl)
  have lists : ∀ other kind, ((system.setListFor sizes thread bufId
      { system.listFor sizes thread bufId
      with tail := (system.listFor sizes thread bufId).tail + 1 }).setPgwr thread
      (.marking bufId caller)).list other kind =
      if other = thread ∧ kind = sizes.listOf bufId then
        { system.listFor sizes thread bufId with tail := (system.listFor sizes thread bufId).tail + 1 }
      else system.list other kind := fun _ _ => list_setList
  -- the only new place is the one at the tail
  have places : ∀ held place, ((system.setListFor sizes thread bufId
      { system.listFor sizes thread bufId
      with tail := (system.listFor sizes thread bufId).tail + 1 }).setPgwr thread
      (.marking bufId caller)).At held place ↔ system.At held place ∨
        place = .slot thread (sizes.listOf bufId) (system.listFor sizes thread bufId).tail ∧ held = bufId := by
    intro held place
    have room := (invariant.room thread (sizes.listOf bufId)).1
    cases place with
    | popper id => exact ⟨Or.inl, fun either => either.resolve_right (by rintro ⟨⟨⟩, -⟩)⟩
    | slot other kind loc =>
      simp only [At, lists]
      split_ifs with self
      · obtain ⟨rfl, rfl⟩ := self
        unfold listFor at names ⊢
        constructor
        · rintro ⟨low, high, held⟩
          rcases Nat.lt_succ_iff_lt_or_eq.mp high with below | rfl
          · exact Or.inl ⟨low, below, held⟩
          · exact Or.inr ⟨rfl, held.symm.trans names⟩
        · rintro (⟨low, high, held⟩ | ⟨same, rfl⟩)
          · exact ⟨low, high.trans (Nat.lt_succ_self _), held⟩
          · obtain ⟨-, -, rfl⟩ := CandidatePlace.slot.inj same
            exact ⟨room, Nat.lt_succ_self _, names⟩
      · refine ⟨Or.inl, fun either => either.resolve_right fun both => self ?_⟩
        obtain ⟨rfl, rfl, -⟩ := CandidatePlace.slot.inj both.1
        exact ⟨rfl, rfl⟩
  have marks : ∀ held, ((system.setListFor sizes thread bufId
      { system.listFor sizes thread bufId
      with tail := (system.listFor sizes thread bufId).tail + 1 }).setPgwr thread
      (.marking bufId caller)).Marked held ↔ system.Marked held ∨ held = bufId := by
    intro held
    show (_ ∨ ∃ other, (update system.pgwr thread _ other).marks = _) ↔ _
    constructor
    · rintro (marked | ⟨other, marks⟩)
      · exact Or.inl (Or.inl marked)
      · rw [update_apply] at marks
        split_ifs at marks
        · exact Or.inr (Option.some.inj marks).symm
        · exact Or.inl (Or.inr ⟨other, marks⟩)
    · rintro ((marked | ⟨other, marks⟩) | rfl)
      · exact Or.inl marked
      · refine Or.inr ⟨other, ?_⟩
        rw [update_of_ne]
        · exact marks
        · rintro rfl
          rw [here] at marks
          cases marks
      · exact Or.inr ⟨thread, by rw [update_self]; rfl⟩
  refine invariant.step (.pgwr thread) ?_ (fun _ _ => rfl) ?_ ?_ (fun _ _ => rfl) ?_ ?_ ?_ ?_ ?_
    (by rintro _ ⟨⟩)
  · intro other different
    exact update_of_ne (fun same => different (congrArg _ same.symm)) _ _
  · intro other kind
    rw [lists]
    split_ifs with self
    · obtain ⟨rfl, rfl⟩ := self
      exact ⟨rfl, le_rfl, Nat.le_succ _, fun _ _ _ => rfl⟩
    · exact .refl _
  · intro other kind different
    rw [lists, if_neg fun self => different (congrArg _ self.1.symm)]
    exact ⟨rfl, rfl⟩
  · rw [holds_setPgwr]
    exact invariant.locks.same locked.symm
  · intro other kind
    rw [lists]
    split_ifs with self
    · obtain ⟨rfl, rfl⟩ := self
      exact ⟨(invariant.room _ _).1.trans (Nat.le_succ _), free⟩
    · exact invariant.room other kind
  · intro held first second one two
    rcases (places held first).mp one with one | ⟨rfl, rfl⟩ <;> rcases (places _ second).mp two
      with two | ⟨rfl, same⟩
    · exact invariant.unique held first second one two
    · exact absurd (same ▸ one) (absent _)
    · exact absurd two (absent _)
    · rfl
  · intro held
    rw [marks, ← invariant.marked held]
    constructor
    · rintro ⟨place, here⟩
      rcases (places held place).mp here with before | ⟨-, rfl⟩
      · exact Or.inl ⟨place, before⟩
      · exact Or.inr rfl
    · rintro (⟨place, before⟩ | rfl)
      · exact ⟨place, (places held place).mpr (Or.inl before)⟩
      · exact ⟨_, (places held _).mpr (Or.inr ⟨rfl, rfl⟩)⟩
  · rintro _ ⟨⟩
    show PgwrFacts sizes _ thread (update system.pgwr thread _ thread)
    rw [update_self]
    exact unmarked

theorem mark {caller : PushCaller}
    (here : system.pgwr thread = .marking bufId caller) :
    CandidateInvariant sizes ((system.setMark bufId true).setPgwr thread (.unlocking bufId caller)) := by
  have locked : (system.pgwr thread).locked = some bufId := by rw [here]; rfl
  have places :
      ∀ held place, ((system.setMark bufId true).setPgwr thread (.unlocking bufId caller)).At held
      place ↔
      system.At held place := fun held place => at_congr (fun _ _ => .refl _) fun _ => rfl
  have marks : ∀ held, ((system.setMark bufId true).setPgwr thread (.unlocking bufId caller)).Marked held ↔
      system.Marked held := by
    intro held
    show (update system.candidateFreeMap bufId true held = true ∨
      ∃ other, (update system.pgwr thread _ other).marks = _) ↔ _
    rw [update_apply]
    split_ifs with self
    · exact ⟨fun _ => Or.inr ⟨thread, by rw [here, self]; rfl⟩, fun _ => Or.inl rfl⟩
    · refine or_congr_right (exists_congr fun other => ?_)
      rw [update_apply]
      split_ifs with mine
      · rw [mine, here]
        exact ⟨nofun, fun same => absurd (Option.some.inj same).symm self⟩
      · rfl
  refine invariant.step (.pgwr thread) ?_ (fun _ _ => rfl) (fun _ _ => .refl _) (fun _ _ _ => ⟨rfl, rfl⟩) ?_ ?_
    invariant.room ?_ ?_ ?_ nofun
  · intro other different
    exact update_of_ne (fun same => different (congrArg _ same.symm)) _ _
  · intro held different
    refine update_of_ne ?_ _ _
    rintro rfl
    exact different locked
  · rw [holds_setPgwr]
    exact invariant.locks.same locked.symm
  · intro held first second one two
    exact invariant.unique held first second ((places held first).mp one) ((places held second).mp two)
  · intro held
    rw [marks]
    simp only [places]
    exact invariant.marked held
  · rintro _ ⟨⟩
    show PgwrFacts sizes _ thread (update system.pgwr thread _ thread)
    rw [update_self]
    trivial

end CandidateInvariant

end CandidateSystem

open Lib

namespace CandidateSystem

variable {sizes : PoolSizes} {system after : CandidateSystem} {id bufId : Nat} {pc : GetBufPc}

namespace CandidateInvariant

section

variable (invariant : CandidateInvariant sizes system)

include invariant

/-- What a backend does to no list and no mark. -/
theorem getBufStill (getBuf : after.getBuf = update system.getBuf id pc)
    (pgwr : after.pgwr = system.pgwr) (lists : after.list = system.list)
    (maps : after.candidateFreeMap = system.candidateFreeMap) (locks : LockTable after.hdrLock after.holds)
    (hands : pc.hands = (system.getBuf id).hands) (facts : GetBufFacts sizes system pc) :
    CandidateInvariant sizes after := by
  refine invariant.still (.backend id) (fun _ _ => congrFun pgwr _) ?_ (fun _ _ => lists ▸ .refl _)
    (fun _ _ _ => by rw [lists]) maps locks (fun _ => by rw [pgwr]) ?_ nofun ?_
  · intro other different
    rw [getBuf]
    exact update_of_ne (fun same => different (congrArg _ same.symm)) _ _
  · intro other
    rw [getBuf, update_apply]
    split_ifs with self
    · rw [self, hands]
    · rfl
  · rintro _ ⟨⟩
    rw [getBuf, update_self]
    exact getBufFacts_keep facts fun _ _ => lists ▸ .refl _

theorem setGetBuf (locked : pc.locked = (system.getBuf id).locked)
    (hands : pc.hands = (system.getBuf id).hands) (facts : GetBufFacts sizes system pc) :
    CandidateInvariant sizes (system.setGetBuf id pc) := by
  refine invariant.getBufStill rfl rfl rfl rfl ?_ hands facts
  rw [holds_setGetBuf]
  exact invariant.locks.same locked

theorem getBufLock (unlocked : system.hdrLock bufId = none)
    (idle : (system.getBuf id).locked = none) (locked : pc.locked = some bufId)
    (hands : pc.hands = (system.getBuf id).hands) (facts : GetBufFacts sizes system pc) :
    CandidateInvariant sizes ((system.setLock bufId (some (.backend id))).setGetBuf id pc) := by
  refine invariant.getBufStill rfl rfl rfl rfl ?_ hands facts
  rw [holds_setGetBuf, locked]
  exact invariant.locks.acquire unlocked idle

theorem getBufUnlock (locked : (system.getBuf id).locked = some bufId)
    (idle : pc.locked = none) (hands : pc.hands = (system.getBuf id).hands)
      (facts : GetBufFacts sizes system pc) :
    CandidateInvariant sizes ((system.setLock bufId none).setGetBuf id pc) := by
  refine invariant.getBufStill rfl rfl rfl rfl ?_ hands facts
  rw [holds_setGetBuf, idle]
  exact invariant.locks.release locked

end

/-- The head was still the one read before, so the buffer read is the one taken out. -/
theorem pop {search : Search} {head : Nat} (invariant : CandidateInvariant sizes system)
    (here : system.getBuf id = .exchanging search head bufId)
      (same : (system.searchList sizes search).head = head) :
    CandidateInvariant sizes ((system.setList (searchThread sizes search) search.kind
        { system.searchList sizes search with head := head + 1 }).setGetBuf id (.popped search bufId)) := by
  have facts := invariant.getBufs id
  rw [here] at facts
  obtain ⟨below, names⟩ := facts.2 same
  have lists : ∀ other kind, ((system.setList (searchThread sizes search) search.kind
      { system.searchList sizes search with head := head + 1 }).setGetBuf id
      (.popped search bufId)).list other kind =
      if other = searchThread sizes search ∧ kind = search.kind then
        { system.searchList sizes search with head := head + 1 }
      else system.list other kind := fun _ _ => list_setList
  have idle : ∀ held, ¬ system.At held (.popper id) := by
    intro held has
    unfold At at has
    dsimp only at has
    rw [here] at has
    cases has
  have first : system.At bufId (.slot (searchThread sizes search) search.kind head) :=
    ⟨same.le, below, names⟩
  have places : ∀ held place, ((system.setList (searchThread sizes search) search.kind
      { system.searchList sizes search with head := head + 1 }).setGetBuf id
      (.popped search bufId)).At held place ↔
      (system.At held place ∧ place ≠ .slot (searchThread sizes search) search.kind head) ∨
        place = .popper id ∧ held = bufId := by
    intro held place
    cases place with
    | popper other =>
      show (update system.getBuf id _ other).hands = some held ↔ _
      rw [update_apply]
      split_ifs with self
      · subst self
        constructor
        · intro has
          exact Or.inr ⟨rfl, (Option.some.inj has).symm⟩
        · rintro (⟨has, -⟩ | ⟨-, rfl⟩)
          · exact absurd has (idle held)
          · rfl
      · refine ⟨fun has => Or.inl ⟨has, by rintro ⟨⟩⟩, ?_⟩
        rintro (⟨has, -⟩ | ⟨mine, -⟩)
        · exact has
        · exact absurd (CandidatePlace.popper.inj mine) self
    | slot other kind loc =>
      simp only [At, lists]
      split_ifs with self
      · obtain ⟨rfl, rfl⟩ := self
        unfold searchList at same ⊢
        constructor
        · rintro ⟨low, high, held⟩
          refine Or.inl ⟨⟨same.le.trans ((Nat.le_succ _).trans low), high, held⟩, fun place => ?_⟩
          obtain ⟨-, -, rfl⟩ := CandidatePlace.slot.inj place
          exact absurd low (Nat.not_succ_le_self _)
        · rintro (⟨⟨low, high, held⟩, different⟩ | ⟨mine, -⟩)
          · refine ⟨Nat.lt_of_le_of_ne (same ▸ low) ?_, high, held⟩
            rintro rfl
            exact different rfl
          · cases mine
      · refine ⟨fun has => Or.inl ⟨has, fun place => self ?_⟩, ?_⟩
        · obtain ⟨rfl, rfl, -⟩ := CandidatePlace.slot.inj place
          exact ⟨rfl, rfl⟩
        · rintro (⟨has, -⟩ | ⟨mine, -⟩)
          · exact has
          · cases mine
  refine invariant.step (.backend id) (fun _ _ => rfl) ?_ ?_ ?_ (fun _ _ => rfl) ?_ ?_ ?_ ?_ (by rintro _ ⟨⟩) ?_
  · intro other different
    exact update_of_ne (fun equal => different (congrArg _ equal.symm)) _ _
  · intro other kind
    rw [lists]
    split_ifs with self
    · obtain ⟨rfl, rfl⟩ := self
      exact ⟨rfl, same.le.trans (Nat.le_succ _), le_rfl, fun _ _ _ => rfl⟩
    · exact .refl _
  · intro other kind _
    rw [lists]
    split_ifs with self
    · obtain ⟨rfl, rfl⟩ := self
      exact ⟨rfl, rfl⟩
    · exact ⟨rfl, rfl⟩
  · rw [holds_setGetBuf]
    refine invariant.locks.same ?_
    show none = (system.getBuf id).locked
    rw [here]
    rfl
  · intro other kind
    rw [lists]
    split_ifs with self
    · obtain ⟨rfl, rfl⟩ := self
      have room := (invariant.room (searchThread sizes search) search.kind).2
      unfold searchList at same below ⊢
      dsimp only
      omega
    · exact invariant.room other kind
  · intro held one two has also
    rcases (places held one).mp has with ⟨has, apart⟩ | ⟨rfl, rfl⟩ <;>
      rcases (places _ two).mp also with ⟨also, away⟩ | ⟨rfl, equal⟩
    · exact invariant.unique held one two has also
    · exact absurd (invariant.unique bufId one _ (equal ▸ has) first) apart
    · exact absurd (invariant.unique held two _ also first) away
    · rfl
  · intro held
    have before := invariant.marked held
    show _ ↔ system.Marked held
    rw [← before]
    constructor
    · rintro ⟨place, has⟩
      rcases (places held place).mp has with ⟨has, -⟩ | ⟨-, rfl⟩
      · exact ⟨place, has⟩
      · exact ⟨_, first⟩
    · rintro ⟨place, has⟩
      by_cases moved : place = .slot (searchThread sizes search) search.kind head
      · subst moved
        have equal : held = bufId := has.2.2.symm.trans names
        exact ⟨.popper id, (places held _).mpr (Or.inr ⟨rfl, equal⟩)⟩
      · exact ⟨place, (places held place).mpr (Or.inl ⟨has, moved⟩)⟩
  · rintro _ ⟨⟩
    show GetBufFacts sizes _ (update system.getBuf id _ id)
    rw [update_self]
    trivial

/-- A buffer whose header a backend has locked is not being pushed. -/
theorem pgwr_apart (invariant : CandidateInvariant sizes system)
    (locked : (system.getBuf id).locked = some bufId)
    {thread : Nat} : (system.pgwr thread).marks ≠ some bufId := by
  intro marks
  have also : system.holds (.pgwr thread) = some bufId := PgwrPc.locked_of_marks marks
  cases invariant.locks.alone (show system.holds (.backend id) = some bufId from locked) also

section

variable {search : Search} (invariant : CandidateInvariant sizes system)
  (here : system.getBuf id = .checking search bufId)

include invariant here

/-- Who has popped a buffer finds it marked. -/
theorem popped_marked : system.candidateFreeMap bufId = true := by
  have hands : system.At bufId (.popper id) := by
    show (system.getBuf id).hands = _
    rw [here]
    rfl
  refine ((invariant.marked bufId).mp ⟨_, hands⟩).resolve_right ?_
  rintro ⟨thread, marks⟩
  exact invariant.pgwr_apart (by rw [here]; rfl) marks

theorem unmark (locked : pc.locked = some bufId) (hands : pc.hands = none)
    (facts : GetBufFacts sizes ((system.setMark bufId false).setGetBuf id pc) pc) :
    CandidateInvariant sizes ((system.setMark bufId false).setGetBuf id pc) := by
  have mine : (system.getBuf id).locked = some bufId := by rw [here]; rfl
  have has : system.At bufId (.popper id) := by
    show (system.getBuf id).hands = _
    rw [here]
    rfl
  have places : ∀ held place, ((system.setMark bufId false).setGetBuf id pc).At held place ↔
      system.At held place ∧ place ≠ .popper id := by
    intro held place
    cases place with
    | slot => exact ⟨fun has => ⟨has, nofun⟩, fun both => both.1⟩
    | popper other =>
      show (update system.getBuf id pc other).hands = some held ↔ _
      rw [update_apply]
      split_ifs with self
      · rw [hands, self]
        exact ⟨nofun, fun both => absurd rfl both.2⟩
      · exact ⟨fun has => ⟨has, fun same => self (CandidatePlace.popper.inj same)⟩, fun both => both.1⟩
  refine invariant.step (.backend id) (fun _ _ => rfl) ?_ (fun _ _ => .refl _) (fun _ _ _ => ⟨rfl, rfl⟩) ?_ ?_
    invariant.room ?_ ?_ nofun ?_
  · intro other different
    exact update_of_ne (fun equal => different (congrArg _ equal.symm)) _ _
  · intro held different
    refine update_of_ne ?_ _ _
    rintro rfl
    exact different mine
  · rw [holds_setGetBuf]
    exact invariant.locks.same (locked.trans mine.symm)
  · intro held first second one two
    exact invariant.unique held first second ((places held first).mp one).1 ((places held second).mp two).1
  · intro held
    have before := invariant.marked held
    by_cases self : held = bufId
    · subst self
      constructor
      · rintro ⟨place, there⟩
        obtain ⟨there, apart⟩ := (places held place).mp there
        exact absurd (invariant.unique held place _ there has) apart
      · rintro (marked | ⟨thread, marks⟩)
        · change update system.candidateFreeMap held false held = true at marked
          rw [update_self] at marked
          cases marked
        · exact absurd marks (invariant.pgwr_apart mine)
    · show _ ↔ update system.candidateFreeMap bufId false held = true ∨ _
      rw [update_of_ne self]
      refine Iff.trans ⟨?_, ?_⟩ before
      · rintro ⟨place, there⟩
        exact ⟨place, ((places held place).mp there).1⟩
      · rintro ⟨place, there⟩
        refine ⟨place, (places held place).mpr ⟨there, ?_⟩⟩
        rintro rfl
        change (system.getBuf id).hands = _ at there has
        exact self (Option.some.inj (there.symm.trans has))
  · rintro _ ⟨⟩
    show GetBufFacts sizes _ (update system.getBuf id pc id)
    rw [update_self]
    exact facts

end

end CandidateInvariant

end CandidateSystem

end OpenGauss.PageWriter
