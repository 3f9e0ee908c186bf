import OpenGauss.ProcArray.GroupSteps

namespace OpenGauss.ProcArray

open Function (update update_apply)

open Lib

namespace GroupSystem

namespace GroupInvariant

variable {system : GroupSystem} {place : Nat → GroupPlace} {backend member field : Nat}
  {wake cur seen next : Option Nat} {copy : GroupCache} {action : Action}

section

variable (invariant : GroupInvariant system place)

include invariant

theorem acquire (here : system.pc backend = .locking) (unlocked : system.lock = none) :
    GroupInvariant { system.setPc backend .draining with lock := some backend } place := by
  refine invariant.turn ?_ (by rw [here]; exact ⟨nofun, nofun⟩) nofun nofun
    ⟨nofun, nofun, nofun, nofun, nofun, nofun⟩
  rw [setPc_halfway_same (by rw [here]; rfl)]
  exact invariant.placed.acquire (by rw [here]; rfl) unlocked fun other => setPc_role other

/-- The list of the group becomes the list of its leader. -/
theorem detach (here : system.pc backend = .detaching seen) (same : system.first = seen) :
    GroupInvariant { system.setPc backend (.visiting seen seen) with first := none }
      (fun id => if place id = .forming then .todo backend else place id) := by
  have taking : (system.pc backend).role = .taking := by rw [here]; rfl
  have samePc : ∀ other, other ≠ backend → (system.setPc backend (.visiting seen seen)).pc other =
      system.pc other :=
    fun other different => by rw [setPc_pc, if_neg different]
  have stands : (system.setPc backend (.visiting seen seen)).pc backend = .visiting seen seen := by
    rw [setPc_pc, if_pos rfl]
  have absent : ∀ id, place id ≠ .todo backend ∧ place id ≠ .done backend := by
    intro id
    constructor
    · intro todo
      have := (invariant.placed.todo id backend todo).1
      rw [taking] at this
      cases this
    · intro done
      have := (invariant.placed.done id backend done).1
      rw [taking] at this
      rcases this with impossible | impossible <;> cases impossible
  generalize place_eq : (fun id => if place id = .forming then GroupPlace.todo backend else place id) = place'
  have place_at : ∀ id, place' id = if place id = .forming then .todo backend else place id :=
    fun id => (congrFun place_eq id).symm
  refine ⟨?_, ?_, ?_, ?_⟩
  · show Placement _ (fun id => ((system.setPc backend (.visiting seen seen)).pc id).halfway) _ _ _ _
    rw [setPc_halfway_same (by rw [here]; rfl)]
    exact invariant.placed.take taking (fun other => setPc_role other) place_at
  · obtain ⟨slots, listed, nodup, members⟩ := invariant.lists.forming
    refine invariant.lists.frame samePc (fun _ _ _ _ => rfl) ?_ ?_ (fun _ _ _ _ => rfl)
      ⟨[], rfl, List.nodup_nil, ?_⟩ ?_ (by rw [stands]; nofun) (by rw [stands]; nofun) (by rw [stands]; nofun)
    · intro other id different
      rw [place_at]
      by_cases forming : place id = .forming
      · simp [forming, Ne.symm different]
      · rw [if_neg forming]
    · intro other id different
      rw [place_at]
      by_cases forming : place id = .forming
      · simp [forming]
      · rw [if_neg forming]
    · intro id
      rw [place_at]
      by_cases forming : place id = .forming
      · simp [forming]
      · simp [forming]
    · rw [stands]
      rintro _ _ ⟨⟩
      refine ⟨[], slots, same ▸ listed, same ▸ listed, nodup, ?_, ?_⟩
      · intro id
        rw [place_at]
        by_cases forming : place id = .forming
        · simp [forming]
        · simp [forming, (absent id).2]
      · intro id
        rw [place_at, members]
        by_cases forming : place id = .forming
        · simp [forming]
        · simp [forming, (absent id).1]
  · refine invariant.requests.frame samePc (fun _ _ _ => rfl) (fun _ _ => rfl) ?_ (fun _ _ _ _ _ => rfl)
      (invariant.requests.valid backend) (by rw [stands]; nofun) ?_ (by rw [stands]; nofun)
      (by rw [stands]; nofun)
    · intro id _ placed away
      rw [place_at, away] at placed
      exact placed rfl
    · have forming := invariant.placed.leading backend (by rw [taking]; rfl)
      exact fun _ => invariant.requests.posted backend (Or.inr (by rw [forming]; nofun))
  · refine invariant.accounts.congr (setPc_pending (by rw [taking]; exact ⟨nofun, nofun⟩) ?_)
    intro id
    rw [place_at]
    split_ifs with forming
    · rw [forming]; rfl
    · rfl

theorem visiting (here : system.pc backend = .visiting wake (some member)) :
    GroupInvariant (system.setPc backend
      (if (system.cache member).subXactLatestXid ≠ 0 then .removing wake member 1 {} else .ending wake member))
      place := by
  have walk := invariant.lists.walk backend wake (some member) (by rw [here]; rfl)
  split_ifs with sub
  · refine invariant.move (by rw [here]; rfl) (by rw [here]; rfl) nofun nofun
      ⟨?_, nofun, nofun, nofun, nofun, ?_⟩
    · rintro _ _ ⟨⟩
      exact walk
    · rintro _ _ _ _ ⟨⟩
      exact ⟨sub, by omega, fun field atLeast below => absurd below (by omega)⟩
  · refine invariant.move (by rw [here]; rfl) (by rw [here]; rfl) nofun nofun
      ⟨?_, nofun, nofun, nofun, ?_, nofun⟩
    · rintro _ _ ⟨⟩
      exact walk
    · rintro _ _ ⟨⟩
      exact not_not.mp sub

theorem copying (here : system.pc backend = .removing wake member field copy) (less : field < 5) :
    GroupInvariant (system.setPc backend
      (.removing wake member (field + 1) ((system.cache member).put field copy))) place := by
  have walk := invariant.lists.walk backend wake (some member) (by rw [here]; rfl)
  obtain ⟨sub, -, written⟩ := invariant.requests.removing backend wake member field copy here
  refine invariant.move (by rw [here]; rfl) (by rw [here]; rfl) nofun nofun ⟨?_, nofun, nofun, nofun, nofun, ?_⟩
  · rintro _ _ ⟨⟩
    exact walk
  · rintro _ _ _ _ ⟨⟩
    exact ⟨sub, less, written.put⟩

/-- The leader carries out what the member asked for. -/
theorem carryOut (walks : (system.pc backend).walk system.next = some (wake, some member))
    (asks : ∀ request before, system.opened member = some (request, before) → system.cache member =
      request.cache →
      action = request.action) :
    GroupInvariant ((system.carryOut backend member action).setPc backend (.following wake member))
      (update place member (.done backend)) := by
  have walk := invariant.lists.walk backend wake (some member) walks
  have todo := walk.cursor
  obtain ⟨request, before, isOpen, full⟩ := invariant.requests.posted member (Or.inr (by rw [todo]; nofun))
  obtain rfl := asks request before isOpen full
  have carrying : (system.pc backend).role = .carrying := by
    cases stands : system.pc backend <;> rw [stands] at walks <;> first | rfl | cases walks
  have whole : (system.pc backend).halfway = none := by
    cases stands : system.pc backend <;> rw [stands] at walks <;> first | rfl | cases walks
  generalize after : system.carryOut backend member request.action = served
  have pcSame : served.pc = system.pc := by rw [← after]; rfl
  have samePc : ∀ other, other ≠ backend →
      (served.setPc backend (.following wake member)).pc other = system.pc other :=
    fun other different => by rw [setPc_pc, if_neg different, pcSame]
  have stands : (served.setPc backend (.following wake member)).pc backend = .following wake member := by
    rw [setPc_pc, if_pos rfl]
  have place_at : ∀ id, update place member (.done backend) id = if id = member then .done backend
      else place id :=
    fun id => update_apply _ _ _ _
  have sameRole : (fun id => ((served.setPc backend (.following wake member)).pc id).role) =
      fun id => (system.pc id).role := by
    rw [setPc_role_same (by rw [pcSame, carrying]; rfl), pcSame]
  have sameHalfway : (fun id => ((served.setPc backend (.following wake member)).pc id).halfway) =
      fun id => (system.pc id).halfway := by
    rw [setPc_halfway_same (by rw [pcSame, whole]; rfl), pcSame]
  refine ⟨?_, ?_, ?_, ?_⟩
  · rw [sameRole, sameHalfway, ← after]
    exact invariant.placed.carry todo place_at
  · have elsewhere : ∀ other id, other ≠ backend →
        (update place member (.done backend) id = .todo other ↔ place id = .todo other) ∧
        (update place member (.done backend) id = .done other ↔ place id = .done other) := by
      intro other id different
      rw [place_at]
      by_cases self : id = member
      · rw [if_pos self, self, todo]
        simp [Ne.symm different]
      · rw [if_neg self]
        exact ⟨Iff.rfl, Iff.rfl⟩
    have linksSame : (served.setPc backend (.following wake member)).next = system.next := by rw [← after]; rfl
    have firstSame : (served.setPc backend (.following wake member)).first = system.first := by
        rw [← after]; rfl
    rw [linksSame, firstSame]
    obtain ⟨slots, listed, nodup, members⟩ := invariant.lists.forming
    refine invariant.lists.frame samePc (fun _ _ _ _ => rfl)
      (fun other id different => (elsewhere other id different).1)
      (fun other id different => (elsewhere other id different).2) (fun _ _ _ _ => rfl)
      ⟨slots, listed, nodup, ?_⟩ ?_ (by rw [stands]; nofun) ?_ (by rw [stands]; nofun)
    · intro id
      rw [members, place_at]
      by_cases self : id = member
      · rw [if_pos self, self, todo]
        exact ⟨nofun, nofun⟩
      · rw [if_neg self]
    · rw [stands]
      rintro _ _ ⟨⟩
      exact walk.carry place_at
    · rw [stands]
      rintro _ _ ⟨⟩
      rw [place_at, if_pos rfl]
  · have cacheSame : (served.setPc backend (.following wake member)).cache = system.cache := by
        rw [← after]; rfl
    have openedSame : (served.setPc backend (.following wake member)).opened = system.opened := by
        rw [← after]; rfl
    rw [cacheSame, openedSame]
    have stillPlaced : ∀ id, update place member (.done backend) id ≠ .away → place id ≠ .away := by
      intro id placed
      rw [place_at] at placed
      by_cases self : id = member
      · rw [self, todo]
        nofun
      · rwa [if_neg self] at placed
    refine invariant.requests.frame samePc (fun _ _ _ => rfl) (fun _ _ => rfl) (fun id _ => stillPlaced id)
      (fun _ _ _ _ _ => rfl) (invariant.requests.valid backend)
      (by rw [stands]; nofun) ?_ (by rw [stands]; nofun)
      (by rw [stands]; nofun)
    rw [stands]
    rintro (impossible | placed)
    · cases impossible
    · exact invariant.requests.posted backend (Or.inr (stillPlaced backend placed))
  · have notEntering : (system.pc member).role ≠ .entering := by
      intro entering
      rw [invariant.placed.away (Or.inr entering)] at todo
      cases todo
    have openedSame : (served.setPc backend (.following wake member)).opened = system.opened := by
        rw [← after]; rfl
    have askedSame : (served.setPc backend (.following wake member)).askedOf = system.askedOf := by
        rw [← after]; rfl
    rw [openedSame, askedSame]
    refine invariant.accounts.carry (Or.inr (by rw [todo]; rfl)) ?_ isOpen ?_ ?_
    · intro other
      unfold Pending
      rw [congrFun sameRole other, place_at]
      by_cases self : other = member
      · subst self
        simp [notEntering, GroupPlace.waits]
      · simp [self]
    · intro other
      rw [← after]
      exact update_apply _ _ _ _
    · intro other
      rw [← after]
      by_cases self : other = member
      · simp [self, carriedOf, GroupSystem.carryOut, setPc]
      · simp [self, Ne.symm self, carriedOf, GroupSystem.carryOut, setPc]

theorem ending (here : system.pc backend = .ending wake member) :
    GroupInvariant
      ((system.carryOut backend member (.endTransaction (system.cache member).memberXid)).setPc
      backend
      (.following wake member)) (update place member (.done backend)) := by
  refine invariant.carryOut (by rw [here]; rfl) ?_
  intro request before isOpen full
  have zero := invariant.requests.ending backend wake member here
  rw [full] at zero ⊢
  exact Request.action_of_ending (invariant.requests.valid member request before isOpen) zero

theorem removing (here : system.pc backend = .removing wake member field copy) (all : ¬ field < 5) :
    GroupInvariant
      ((system.carryOut backend member
      (.removeSubXids copy.memberXid copy.subXactNXids copy.subXactXids
      copy.subXactLatestXid)).setPc backend (.following wake member))
      (update place member (.done backend)) := by
  refine invariant.carryOut (by rw [here]; rfl) ?_
  intro request before isOpen full
  obtain ⟨sub, most, written⟩ := invariant.requests.removing backend wake member field copy here
  obtain rfl : field = 5 := by omega
  rw [full] at sub written
  obtain ⟨xid, nxids, xids, latest⟩ := written.fields
  rw [xid, nxids, xids, latest]
  exact Request.action_of_removing sub

/-- The lock is given up before the members are woken. -/
theorem unlock (here : system.pc backend = .visiting wake none) :
    GroupInvariant { system.setPc backend (.waking wake) with lock := none } place := by
  obtain ⟨empty, rest⟩ := (invariant.lists.walk backend wake none (by rw [here]; rfl)).finish
  refine invariant.turn ?_ (by rw [here]; exact ⟨nofun, nofun⟩) nofun nofun
    ⟨nofun, ?_, nofun, nofun, nofun, nofun⟩
  · rw [setPc_halfway_same (by rw [here]; rfl)]
    exact invariant.placed.unlock (by rw [here]; rfl) empty fun other => setPc_role other
  · rintro _ _ ⟨⟩
    exact rest

end

section

variable (invariant : GroupInvariant system place)

include invariant

theorem unlinking (here : system.pc backend = .unlinking member next) :
    GroupInvariant ((system.setNext member none).setPc backend (.resetting member next 0)) place := by
  have rest := invariant.lists.rest backend (some member) next (by rw [here]; rfl)
  have done := rest.held
  have sameNext : ∀ id, place id ≠ .done backend → (system.setNext member none).next id = system.next id := by
    intro id placed
    rw [setNext_next, if_neg]
    rintro rfl
    exact placed done
  have stands : (system.setNext member none).pc backend = .unlinking member next := here
  have unlinked : GroupInvariant (system.setNext member none) place := by
    refine ⟨invariant.placed, ?_, invariant.requests, invariant.accounts⟩
    obtain ⟨slots, listed, nodup, members⟩ := invariant.lists.forming
    have forming : ∃ slots, Listed (system.setNext member none).next system.first slots ∧ slots.Nodup ∧
        ∀ id, id ∈ slots ↔ place id = .forming :=
      ⟨slots, listed.congr fun id inside => sameNext id (by rw [(members id).mp inside]; nofun), nodup, members⟩
    refine invariant.lists.frame (fun _ _ => rfl) ?_ (fun _ _ _ => Iff.rfl) (fun _ _ _ => Iff.rfl) ?_ forming
      (by rw [stands]; nofun) ?_ (by rw [stands]; nofun) (by rw [stands]; nofun)
    · rintro other id different (placed | placed)
      · exact sameNext id (by rw [placed]; nofun)
      · exact sameNext id (by rw [placed]; exact fun same => different (GroupPlace.done.inj same))
    · intro id seen _ joins
      refine sameNext id ?_
      rw [invariant.placed.away (Or.inr (by show (system.pc id).role = _; rw [joins]; rfl))]
      nofun
    · rw [stands]
      rintro _ _ ⟨⟩
      refine rest.congr (fun id _ apart => ?_) fun _ => Iff.rfl
      rw [setNext_next, if_neg]
      rintro rfl
      exact apart rfl
  refine unlinked.move (by rw [stands]; rfl) (by rw [stands]; rfl) nofun nofun ⟨nofun, ?_, nofun,
    nofun, nofun, nofun⟩
  rintro _ _ ⟨⟩
  exact unlinked.lists.rest backend (some member) next (by rw [stands]; rfl)

/-- The first field is reset, and the member is free to go. -/
theorem release (here : system.pc backend = .resetting member next 0) :
    GroupInvariant ((system.setCache member (GroupCache.put {} 0 (system.cache member))).setPc backend
      (.resetting member next 1)) (update place member .away) := by
  have rest := invariant.lists.rest backend (some member) next (by rw [here]; rfl)
  have done := rest.held
  have releasing : (system.pc backend).role = .releasing := by rw [here]; rfl
  generalize newCache : GroupCache.put {} 0 (system.cache member) = cache
  have samePc : ∀ other, other ≠ backend →
      ((system.setCache member cache).setPc backend (.resetting member next 1)).pc other = system.pc other :=
    fun other different => by rw [setPc_pc, if_neg different]; rfl
  have stands : ((system.setCache member cache).setPc backend (.resetting member next 1)).pc backend =
      .resetting member next 1 := by rw [setPc_pc, if_pos rfl]
  have place_at : ∀ id, update place member .away id = if id = member then .away else place id :=
    fun id => update_apply _ _ _ _
  have sameCache : ∀ id, id ≠ member →
      ((system.setCache member cache).setPc backend (.resetting member next 1)).cache id =
      system.cache id :=
    fun id different => (setCache_cache system member cache id).trans (if_neg different)
  refine ⟨?_, ?_, ?_, ?_⟩
  · rw [@setPc_role_same (system.setCache member cache) backend (.resetting member next 1) releasing.symm]
    refine invariant.placed.release releasing done (fun other => setPc_halfway other) place_at ?_
    intro other
    by_cases self : other = member
    · rw [if_pos self, self]
      show ((system.setCache member cache).cache member).member = false
      rw [setCache_cache, if_pos rfl, ← newCache]
      rfl
    · rw [if_neg self]
      exact congrArg GroupCache.member (sameCache other self)
  · have elsewhere : ∀ other id, other ≠ backend →
        (update place member .away id = .todo other ↔ place id = .todo other) ∧
        (update place member .away id = .done other ↔ place id = .done other) := by
      intro other id different
      rw [place_at]
      by_cases self : id = member
      · rw [if_pos self, self, done]
        simp [Ne.symm different]
      · rw [if_neg self]
        exact ⟨Iff.rfl, Iff.rfl⟩
    obtain ⟨slots, listed, nodup, members⟩ := invariant.lists.forming
    refine invariant.lists.frame samePc (fun _ _ _ _ => rfl)
      (fun other id different => (elsewhere other id different).1)
      (fun other id different => (elsewhere other id different).2) (fun _ _ _ _ => rfl)
      ⟨slots, listed, nodup, ?_⟩ (by rw [stands]; nofun) ?_ (by rw [stands]; nofun) (by rw [stands]; nofun)
    · intro id
      rw [members, place_at]
      by_cases self : id = member
      · rw [if_pos self, self, done]
        exact ⟨nofun, nofun⟩
      · rw [if_neg self]
    · rw [stands]
      rintro _ _ ⟨⟩
      exact rest.release place_at
  · have stillPlaced : ∀ id, update place member .away id ≠ .away → id ≠ member ∧ place id ≠ .away := by
      intro id placed
      rw [place_at] at placed
      by_cases self : id = member
      · rw [if_pos self] at placed
        exact absurd rfl placed
      · rw [if_neg self] at placed
        exact ⟨self, placed⟩
    have notEntering : (system.pc member).role ≠ .entering := by
      intro entering
      rw [invariant.placed.away (Or.inr entering)] at done
      cases done
    refine invariant.requests.frame samePc ?_ (fun _ _ => rfl) (fun id _ placed => (stillPlaced id placed).2) ?_
      (invariant.requests.valid backend) (by rw [stands]; nofun) ?_ (by rw [stands]; nofun)
      (by rw [stands]; nofun)
    · rintro id _ (entering | placed)
      · refine sameCache id ?_
        rintro rfl
        exact notEntering entering
      · exact sameCache id (stillPlaced id placed).1
    · intro leader wake id different reads
      refine sameCache id ?_
      rintro rfl
      have todo := invariant.reads reads
      rw [done] at todo
      cases todo
    · rw [stands]
      rintro (impossible | placed)
      · cases impossible
      · obtain ⟨apart, before⟩ := stillPlaced backend placed
        obtain ⟨request, state, isOpen, full⟩ := invariant.requests.posted backend (Or.inr before)
        exact ⟨request, state, isOpen, (sameCache backend apart).trans full⟩
  · refine invariant.accounts.congr (@setPc_pending (system.setCache member cache) place _ backend _ ?_ ?_)
    · show _ ↔ (system.pc backend).role = .entering
      rw [releasing]
      exact ⟨nofun, nofun⟩
    · intro id
      rw [place_at]
      by_cases self : id = member
      · rw [if_pos self, self, done]
        rfl
      · rw [if_neg self]

/-- The other fields are reset while the member may already be on its way. -/
theorem resetting (here : system.pc backend = .resetting member next (field + 1)) :
    GroupInvariant ((system.setCache member (GroupCache.put {} (field + 1) (system.cache member))).setPc backend
      (if field + 1 < 4 then .resetting member next (field + 2) else .signalling member next)) place := by
  have rest := invariant.lists.rest backend none next (by rw [here]; rfl)
  obtain ⟨-, away, who⟩ := invariant.placed.released backend member (by rw [here]; rfl)
  generalize newCache : GroupCache.put {} (field + 1) (system.cache member) = cache
  have sameCache : ∀ id, id ≠ member → (system.setCache member cache).cache id = system.cache id :=
    fun id different => (setCache_cache system member cache id).trans (if_neg different)
  have notEntering : (system.pc member).role ≠ .entering := by
    intro entering
    rw [entering] at who
    rcases who with impossible | impossible | rfl
    · cases impossible
    · cases impossible
    · rw [here] at entering
      cases entering
  have stands : (system.setCache member cache).pc backend = .resetting member next (field + 1) := here
  have cleared : GroupInvariant (system.setCache member cache) place := by
    refine ⟨?_, invariant.lists, ?_, invariant.accounts⟩
    · have marks : (fun id => ((system.setCache member cache).cache id).member) = fun id =>
          (system.cache id).member := by
        funext id
        by_cases self : id = member
        · rw [self, setCache_cache, if_pos rfl, ← newCache]
          rcases field with _ | _ | _ | field <;> rfl
        · rw [sameCache id self]
      rw [marks]
      exact invariant.placed
    · refine invariant.requests.frame (fun _ _ => rfl) ?_ (fun _ _ => rfl) (fun _ _ placed => placed) ?_
        (invariant.requests.valid backend) (by rw [stands]; nofun) ?_ (by rw [stands]; nofun)
        (by rw [stands]; nofun)
      · rintro id _ (entering | placed)
        · refine sameCache id ?_
          rintro rfl
          exact notEntering entering
        · refine sameCache id ?_
          rintro rfl
          exact placed away
      · intro leader wake id different reads
        refine sameCache id ?_
        rintro rfl
        have todo := invariant.reads reads
        rw [away] at todo
        cases todo
      · rw [stands]
        rintro (impossible | placed)
        · cases impossible
        · have apart : backend ≠ member := by
            rintro rfl
            exact placed away
          obtain ⟨request, state, isOpen, full⟩ := invariant.requests.posted backend (Or.inr placed)
          exact ⟨request, state, isOpen, (sameCache backend apart).trans full⟩
  split_ifs with less
  · refine cleared.move (by rw [stands]; rfl) (by rw [stands]; rfl) nofun nofun
      ⟨nofun, ?_, nofun, nofun, nofun, nofun⟩
    rintro _ _ ⟨⟩
    exact rest
  · refine cleared.turn (by
      rw [setPc_role_same (by rw [stands]; rfl)]
      exact cleared.placed.finish fun other => setPc_halfway other)
        (by rw [stands]; exact ⟨nofun, nofun⟩) nofun nofun
      ⟨nofun, ?_, nofun, nofun, nofun, nofun⟩
    rintro _ _ ⟨⟩
    exact rest

theorem waking (here : system.pc backend = .waking (some member)) :
    GroupInvariant (system.setPc backend (.unlinking member (system.next member))) place := by
  have rest := invariant.lists.rest backend none (some member) (by rw [here]; rfl)
  refine invariant.move (by rw [here]; rfl) (by rw [here]; rfl) nofun nofun ⟨nofun, ?_, nofun,
    nofun, nofun, nofun⟩
  rintro _ _ ⟨⟩
  exact rest.take

theorem giveBack (here : system.pc backend = .waking none) :
    GroupInvariant (system.setPc backend .idle) place := by
  have rest := invariant.lists.rest backend none none (by rw [here]; rfl)
  refine @turn system place backend .idle invariant system.lock ?_
    (by rw [here]; exact ⟨nofun, nofun⟩) nofun nofun
    ⟨nofun, nofun, nofun, nofun, nofun, nofun⟩
  rw [setPc_halfway_same (by rw [here]; rfl)]
  exact invariant.placed.giveBack (by rw [here]; rfl) (by rw [here]; rfl) rest.finish fun other =>
    setPc_role other

end

end GroupInvariant

end GroupSystem

end OpenGauss.ProcArray
