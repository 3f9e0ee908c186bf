import OpenGauss.ProcArray.GroupLeader

namespace OpenGauss.ProcArray

open Lib

namespace GroupSystem

variable {system : GroupSystem} {place : Nat → GroupPlace} {backend : Nat}

theorem init_invariant : GroupInvariant init fun _ => .away := by
  refine ⟨⟨nofun, nofun, nofun, nofun, nofun, nofun, nofun, ?_⟩,
    ⟨⟨[], rfl, List.nodup_nil, ?_⟩, nofun, nofun, nofun, nofun⟩,
    ⟨nofun, nofun, ?_, nofun, nofun⟩, ⟨?_, ?_⟩⟩
  · exact fun id => ⟨nofun, nofun⟩
  · exact fun id => ⟨nofun, nofun⟩
  · rintro id (impossible | impossible)
    · cases impossible
    · exact absurd rfl impossible
  · rintro id (impossible | impossible) <;> cases impossible
  · exact fun id _ => ⟨rfl, nofun⟩

/-- The fields of a backend are not being reset while it posts its next request. -/
def Whole (system : GroupSystem) : GroupEvent → Prop
  | .call backend _ => ∀ leader, (system.pc leader).halfway ≠ some backend
  | _ => True

theorem GroupInvariant.advance (invariant : GroupInvariant system place) (backend : Nat) :
    ∃ place', GroupInvariant (system.advance backend) place' := by
  have nowhere : ∀ {system' : GroupSystem} {pc : GroupPc}, pc.walk system'.next = none → pc.rest = none →
      (∀ wake id, pc ≠ .following wake id) → (∀ seen, pc ≠ .joining seen) →
      GroupStand system' place backend pc := by
    intro system' pc noWalk noRest following joining
    refine ⟨?_, ?_, fun wake id same => absurd same (following wake id),
      fun seen same => absurd same (joining seen), ?_, ?_⟩
    · intro wake cur walks
      rw [noWalk] at walks
      cases walks
    · intro held cur rests
      rw [noRest] at rests
      cases rests
    · rintro wake id rfl
      cases noWalk
    · rintro wake id field copy rfl
      cases noWalk
  unfold GroupSystem.advance
  cases here : system.pc backend with
  | idle => exact ⟨place, invariant⟩
  | posting request field => exact ⟨place, invariant.posting here⟩
  | reading =>
    exact ⟨place, invariant.move (by rw [here]; rfl) (by rw [here]; rfl) nofun (by rw [here]; exact id)
      (nowhere rfl rfl nofun nofun)⟩
  | linking seen => exact ⟨place, invariant.linking here⟩
  | joining seen =>
    dsimp only
    by_cases same : system.first = seen
    · rw [if_pos same]
      exact ⟨_, invariant.join here same⟩
    · rw [if_neg same]
      exact ⟨place, invariant.move (by rw [here]; rfl) (by rw [here]; rfl) nofun (by rw [here]; exact id)
        (nowhere rfl rfl nofun nofun)⟩
  | sleeping extraWaits =>
    dsimp only
    split_ifs with awake
    · refine ⟨place, (invariant.setSem _).move ?_ ?_ nofun nofun (nowhere rfl rfl nofun nofun)⟩
      · show _ = (system.pc backend).role
        rw [here]; rfl
      · show _ = (system.pc backend).halfway
        rw [here]; rfl
    · exact ⟨place, invariant⟩
  | checking extraWaits => exact ⟨place, invariant.checking here⟩
  | repaying extraWaits =>
    cases extraWaits with
    | zero =>
      exact ⟨place, invariant.move (by rw [here]; rfl) (by rw [here]; rfl) nofun nofun
        (nowhere rfl rfl nofun nofun)⟩
    | succ extraWaits =>
      refine ⟨place, (invariant.setSem _).move ?_ ?_ nofun nofun (nowhere rfl rfl nofun nofun)⟩
      · show _ = (system.pc backend).role
        rw [here]; rfl
      · show _ = (system.pc backend).halfway
        rw [here]; rfl
  | locking =>
    dsimp only
    split_ifs with unlocked
    · exact ⟨place, invariant.acquire here unlocked⟩
    · exact ⟨place, invariant⟩
  | draining =>
    exact ⟨place, invariant.move (by rw [here]; rfl) (by rw [here]; rfl) nofun nofun
      (nowhere rfl rfl nofun nofun)⟩
  | detaching seen =>
    dsimp only
    split_ifs with same
    · exact ⟨_, invariant.detach here same⟩
    · exact ⟨place, invariant.move (by rw [here]; rfl) (by rw [here]; rfl) nofun nofun
        (nowhere rfl rfl nofun nofun)⟩
  | visiting wake cur =>
    cases cur with
    | none => exact ⟨place, invariant.unlock here⟩
    | some member => exact ⟨place, invariant.visiting here⟩
  | ending wake member => exact ⟨_, invariant.ending here⟩
  | removing wake member field copy =>
    dsimp only
    split_ifs with less
    · exact ⟨place, invariant.copying here less⟩
    · exact ⟨_, invariant.removing here less⟩
  | following wake member =>
    refine ⟨place, invariant.move (by rw [here]; rfl) (by rw [here]; rfl) nofun nofun
      ⟨?_, nofun, nofun, nofun, nofun, nofun⟩⟩
    rintro _ _ ⟨⟩
    exact invariant.lists.walk backend wake (system.next member) (by rw [here]; rfl)
  | waking cur =>
    cases cur with
    | none => exact ⟨place, invariant.giveBack here⟩
    | some member => exact ⟨place, invariant.waking here⟩
  | unlinking member next => exact ⟨place, invariant.unlinking here⟩
  | resetting member next field =>
    cases field with
    | zero => exact ⟨_, invariant.release here⟩
    | succ field => exact ⟨place, invariant.resetting here⟩
  | signalling member next =>
    have rest := invariant.lists.rest backend none next (by rw [here]; rfl)
    have posted :
        ∀ count, GroupInvariant ((system.setSem member count).setPc backend (.waking next))
        place := by
      intro count
      refine (invariant.setSem count).move ?_ ?_ nofun nofun ⟨nofun, ?_, nofun, nofun, nofun, nofun⟩
      · show _ = (system.pc backend).role
        rw [here]; rfl
      · show _ = (system.pc backend).halfway
        rw [here]; rfl
      · rintro _ _ ⟨⟩
        exact rest
    dsimp only
    split_ifs with self
    · refine ⟨place, invariant.move (by rw [here]; rfl) (by rw [here]; rfl) nofun nofun
        ⟨nofun, ?_, nofun, nofun, nofun, nofun⟩⟩
      rintro _ _ ⟨⟩
      exact rest
    · exact ⟨place, posted _⟩

theorem GroupInvariant.step (invariant : GroupInvariant system place) (event : GroupEvent)
    (whole : Whole system event) : ∃ place', GroupInvariant (system.step event) place' := by
  cases event with
  | call backend request =>
    simp only [GroupSystem.step]
    split_ifs with ready
    · exact ⟨place, invariant.call ready.1 ready.2 whole⟩
    · exact ⟨place, invariant⟩
  | advance backend => exact invariant.advance backend
  | wake backend => exact ⟨place, invariant.setSem _⟩
  | work backend proc =>
    simp only [GroupSystem.step]
    split_ifs with idle
    · have outside : (system.pc backend).role = .outside := by rw [idle]; rfl
      refine ⟨place, invariant.placed, invariant.lists, ?_, ?_⟩
      · refine invariant.requests.frame (fun _ _ => rfl) (fun _ _ _ => rfl)
          (fun id different => Function.update_of_ne different _ _) (fun _ _ placed => placed)
          (fun _ _ _ _ _ => rfl)
          ?_ ?_ ?_ (by rw [idle]; nofun) (by rw [idle]; nofun)
        · intro request before isOpen
          cases (Function.update_self backend none system.opened).symm.trans isOpen
        · rw [idle]
          nofun
        · rw [idle, invariant.placed.away (Or.inl outside)]
          rintro (impossible | impossible)
          · cases impossible
          · exact absurd rfl impossible
      · exact invariant.accounts.work (invariant.not_pending outside)
          (fun other => Function.update_apply _ _ _ _)
          fun other different => Function.update_of_ne different _ _
    · exact ⟨place, invariant⟩

/-- A follower that was let go has a wake-up, or gets one from the leader that is letting it go. -/
def Rescued (system : GroupSystem) : Prop :=
  ∀ id extraWaits, system.pc id = .sleeping extraWaits → (system.cache id).member = false →
    0 < system.sem id ∨ ∃ leader next, leader ≠ id ∧
      ((∃ field, system.pc leader = .resetting id next (field + 1)) ∨ system.pc leader = .signalling id next)

/-- A member was let go and is not signalled yet. -/
def letsGo : GroupPc → Bool
  | .resetting _ _ (_ + 1) | .signalling _ _ => true
  | _ => false

variable {system' : GroupSystem} {pc : GroupPc} {next : Option Nat}

section

variable (rescued : Rescued system)
include rescued

/-- A step that lets nobody go and signals nobody. -/
theorem Rescued.turn
    (pcs : ∀ other, system'.pc other = if other = backend then pc else system.pc other)
    (sems : ∀ other, other ≠ backend → system.sem other ≤ system'.sem other)
    (marks : ∀ other, other ≠ backend → (system'.cache other).member = false →
      (system.cache other).member = false)
    (quiet : letsGo (system.pc backend) = false)
    (own : ∀ extraWaits, pc = .sleeping extraWaits → (system'.cache backend).member = true) :
      Rescued system' := by
  intro id extraWaits sleeps released
  rw [pcs] at sleeps
  by_cases self : id = backend
  · subst self
    rw [if_pos rfl] at sleeps
    rw [own extraWaits sleeps] at released
    cases released
  · rw [if_neg self] at sleeps
    rcases rescued id extraWaits sleeps (marks id self released) with awake | ⟨leader, next, apart, soon⟩
    · exact Or.inl (lt_of_lt_of_le awake (sems id self))
    · refine Or.inr ⟨leader, next, apart, ?_⟩
      rw [pcs, if_neg]
      · exact soon
      · rintro rfl
        rcases soon with ⟨field, resets⟩ | signals
        · rw [resets] at quiet
          cases quiet
        · rw [signals] at quiet
          cases quiet

theorem Rescued.move (quiet : letsGo (system.pc backend) = false)
    (pcs : ∀ other, system'.pc other = if other = backend then pc else system.pc other)
    (awake : ∀ extraWaits, pc ≠ .sleeping extraWaits)
    (sems : ∀ other, other ≠ backend → system'.sem other = system.sem other)
    (caches : ∀ other, other ≠ backend → system'.cache other = system.cache other) : Rescued system' :=
  rescued.turn pcs (fun other different => le_of_eq (sems other different).symm)
    (fun other different same => by rwa [caches other different] at same) quiet
    fun extraWaits impossible => absurd impossible (awake extraWaits)

theorem Rescued.reset {member field : Nat} {cache : GroupCache}
    (here : system.pc backend = .resetting member next field)
    (later : (∃ more, pc = .resetting member next (more + 1)) ∨ pc = .signalling member next) :
    Rescued ((system.setCache member cache).setPc backend pc) := by
  intro id extraWaits sleeps released
  have pcs : ∀ other, ((system.setCache member cache).setPc backend pc).pc other =
      if other = backend then pc else system.pc other := setPc_pc (system.setCache member cache) backend pc
  rw [pcs] at sleeps
  by_cases self : id = backend
  · rw [if_pos self] at sleeps
    rcases later with ⟨more, rfl⟩ | rfl <;> cases sleeps
  · rw [if_neg self] at sleeps
    by_cases isMember : id = member
    · subst isMember
      refine Or.inr ⟨backend, next, Ne.symm self, ?_⟩
      rw [pcs, if_pos rfl]
      exact later
    · have before : (system.cache id).member = false := by
        rw [← released]
        exact congrArg GroupCache.member ((setCache_cache system member cache id).trans (if_neg isMember)).symm
      rcases rescued id extraWaits sleeps before with awake | ⟨leader, after, apart, soon⟩
      · exact Or.inl awake
      · refine Or.inr ⟨leader, after, apart, ?_⟩
        rw [pcs, if_neg]
        · exact soon
        · rintro rfl
          rw [here] at soon
          rcases soon with ⟨more, same⟩ | same
          · cases same
            exact isMember rfl
          · cases same

theorem Rescued.signal {member : Nat}
    (here : system.pc backend = .signalling member next) :
    Rescued ((if member = backend then system else system.setSem member (system.sem member + 1)).setPc backend
      (.waking next)) := by
  have sems : ∀ other, other ≠ backend → system.sem other ≤
      (if member = backend then system else system.setSem member (system.sem member + 1)).sem other ∧
      (other = member →
      0 < (if member = backend then system else system.setSem member (system.sem member + 1)).sem
      other) := by
    intro other different
    by_cases self : member = backend
    · rw [if_pos self, self]
      exact ⟨le_rfl, fun same => absurd same different⟩
    · rw [if_neg self]
      simp only [setSem, Function.update_apply]
      split_ifs with same
      · rw [same]
        exact ⟨by omega, fun _ => by omega⟩
      · exact ⟨le_rfl, fun impossible => absurd impossible same⟩
  have pcsBefore :
      (if member = backend then system else system.setSem member (system.sem member + 1)).pc =
      system.pc := by
    split_ifs <;> rfl
  have cachesBefore :
      (if member = backend then system else system.setSem member (system.sem member + 1)).cache =
      system.cache := by
    split_ifs <;> rfl
  generalize (if member = backend then system else system.setSem member (system.sem member + 1)) = posted at *
  intro id extraWaits sleeps released
  have pcs := setPc_pc posted backend (.waking next)
  rw [pcs] at sleeps
  by_cases self : id = backend
  · rw [if_pos self] at sleeps
    cases sleeps
  · rw [if_neg self, pcsBefore] at sleeps
    have before : (system.cache id).member = false := by
      rw [← cachesBefore]
      exact released
    rcases rescued id extraWaits sleeps before with awake | ⟨leader, after, apart, soon⟩
    · exact Or.inl (lt_of_lt_of_le awake (sems id self).1)
    · by_cases same : leader = backend
      · subst same
        rw [here] at soon
        rcases soon with ⟨field, impossible⟩ | signals
        · cases impossible
        · cases signals
          exact Or.inl ((sems _ self).2 rfl)
      · refine Or.inr ⟨leader, after, apart, ?_⟩
        rw [pcs, if_neg same, pcsBefore]
        exact soon

theorem Rescued.advance (invariant : GroupInvariant system place) (backend : Nat) :
    Rescued (system.advance backend) := by
  unfold GroupSystem.advance
  cases here : system.pc backend with
  | idle => exact rescued
  | posting request field =>
    refine rescued.move (by rw [here]; rfl) (setPc_pc _ _ _) ?_ (fun _ _ => rfl) ?_
    · intro extraWaits
      split_ifs <;> nofun
    · exact fun other different => (setCache_cache system backend _ other).trans (if_neg different)
  | reading =>
    exact rescued.move (by rw [here]; rfl) (setPc_pc _ _ _) nofun (fun _ _ => rfl) fun _ _ => rfl
  | linking seen =>
    exact rescued.move (by rw [here]; rfl) (setPc_pc _ _ _) nofun (fun _ _ => rfl) fun _ _ => rfl
  | joining seen =>
    dsimp only
    by_cases same : system.first = seen
    · rw [if_pos same]
      refine rescued.turn (setPc_pc _ _ _) (fun _ _ => le_rfl) (fun _ _ same => same) (by rw [here]; rfl) ?_
      intro extraWaits _
      obtain ⟨request, before, -, full⟩ := invariant.requests.posted backend (Or.inl (by rw [here]; rfl))
      show (system.cache backend).member = true
      rw [full]
      cases request <;> rfl
    · rw [if_neg same]
      exact rescued.move (by rw [here]; rfl) (setPc_pc _ _ _) nofun (fun _ _ => rfl) fun _ _ => rfl
  | sleeping extraWaits =>
    dsimp only
    split_ifs with awake
    · exact rescued.move (by rw [here]; rfl) (setPc_pc _ _ _) nofun
        (fun other different => Function.update_of_ne different _ _) fun _ _ => rfl
    · exact rescued
  | checking extraWaits =>
    dsimp only
    by_cases marked : (system.cache backend).member
    · rw [if_pos marked]
      exact rescued.turn (setPc_pc _ _ _) (fun _ _ => le_rfl) (fun _ _ same => same) (by rw [here]; rfl)
        fun _ _ => marked
    · rw [if_neg marked]
      exact rescued.move (by rw [here]; rfl) (setPc_pc _ _ _) nofun (fun _ _ => rfl) fun _ _ => rfl
  | repaying extraWaits =>
    cases extraWaits with
    | zero =>
      exact rescued.move (by rw [here]; rfl) (setPc_pc _ _ _) nofun (fun _ _ => rfl) fun _ _ => rfl
    | succ extraWaits =>
      exact rescued.move (by rw [here]; rfl) (setPc_pc _ _ _) nofun
        (fun other different => Function.update_of_ne different _ _) fun _ _ => rfl
  | locking =>
    dsimp only
    split_ifs with unlocked
    · exact rescued.move (by rw [here]; rfl) (setPc_pc _ _ _) nofun (fun _ _ => rfl) fun _ _ => rfl
    · exact rescued
  | draining =>
    exact rescued.move (by rw [here]; rfl) (setPc_pc _ _ _) nofun (fun _ _ => rfl) fun _ _ => rfl
  | detaching seen =>
    dsimp only
    split_ifs with same
    · exact rescued.move (by rw [here]; rfl) (setPc_pc _ _ _) nofun (fun _ _ => rfl) fun _ _ => rfl
    · exact rescued.move (by rw [here]; rfl) (setPc_pc _ _ _) nofun (fun _ _ => rfl) fun _ _ => rfl
  | visiting wake cur =>
    cases cur with
    | none =>
      exact rescued.move (by rw [here]; rfl) (setPc_pc _ _ _) nofun (fun _ _ => rfl) fun _ _ => rfl
    | some member =>
      refine rescued.move (by rw [here]; rfl) (setPc_pc _ _ _) ?_ (fun _ _ => rfl) fun _ _ => rfl
      intro count
      split_ifs <;> nofun
  | ending wake member =>
    exact rescued.move (by rw [here]; rfl) (setPc_pc _ _ _) nofun (fun _ _ => rfl) fun _ _ => rfl
  | removing wake member field copy =>
    dsimp only
    split_ifs with less
    · exact rescued.move (by rw [here]; rfl) (setPc_pc _ _ _) nofun (fun _ _ => rfl) fun _ _ => rfl
    · exact rescued.move (by rw [here]; rfl) (setPc_pc _ _ _) nofun (fun _ _ => rfl) fun _ _ => rfl
  | following wake member =>
    exact rescued.move (by rw [here]; rfl) (setPc_pc _ _ _) nofun (fun _ _ => rfl) fun _ _ => rfl
  | waking cur =>
    cases cur with
    | none =>
      exact rescued.move (by rw [here]; rfl) (setPc_pc _ _ _) nofun (fun _ _ => rfl) fun _ _ => rfl
    | some member =>
      exact rescued.move (by rw [here]; rfl) (setPc_pc _ _ _) nofun (fun _ _ => rfl) fun _ _ => rfl
  | unlinking member next =>
    exact rescued.move (by rw [here]; rfl) (setPc_pc _ _ _) nofun (fun _ _ => rfl) fun _ _ => rfl
  | resetting member next field =>
    refine rescued.reset here ?_
    split_ifs
    · exact Or.inl ⟨field, rfl⟩
    · exact Or.inr rfl
  | signalling member next => exact rescued.signal here

theorem Rescued.step (invariant : GroupInvariant system place) (event : GroupEvent) :
    Rescued (system.step event) := by
  cases event with
  | call backend request =>
    simp only [GroupSystem.step]
    split_ifs with ready
    · exact rescued.move (by rw [ready.1]; rfl) (setPc_pc _ _ _) nofun (fun _ _ => rfl) fun _ _ => rfl
    · exact rescued
  | advance backend => exact rescued.advance invariant backend
  | wake backend =>
    intro id extraWaits sleeps released
    refine (rescued id extraWaits sleeps released).imp_left fun awake => ?_
    show 0 < Function.update system.sem backend (system.sem backend + 1) id
    rw [Function.update_apply]
    split_ifs
    · omega
    · exact awake
  | work backend proc =>
    simp only [GroupSystem.step]
    split_ifs with idle
    · exact rescued
    · exact rescued

end

/-- As long as a backend is in a call, some backend can go on. -/
theorem progress (invariant : GroupInvariant system place) (rescued : Rescued system) {id : Nat}
    (inCall : system.pc id ≠ .idle) : ∃ other, system.blocked other = false := by
  by_contra stuck
  simp only [not_exists, Bool.not_eq_false] at stuck
  have kinds : ∀ other, (system.pc other).role = .outside ∨ (system.pc other).role = .heading ∧
      system.lock ≠ none ∨
      ∃ extraWaits, system.pc other = .sleeping extraWaits ∧ system.sem other = 0 := by
    intro other
    have halted := stuck other
    unfold blocked at halted
    cases stands : system.pc other <;> rw [stands] at halted <;> simp_all [GroupPc.role]
  have idle : ∀ other, (system.pc other).role = .outside → system.pc other = .idle := by
    intro other outside
    have halted := stuck other
    unfold blocked at halted
    cases stands : system.pc other <;> rw [stands] at halted outside <;>
      first | rfl | cases halted | cases outside
  have unlocked : system.lock = none := by
    cases owner : system.lock with
    | none => rfl
    | some leader =>
      have locked := (invariant.placed.locks leader).mp owner
      rcases kinds leader with out | ⟨heading, -⟩ | ⟨extraWaits, sleeps, -⟩
      · rw [out] at locked; cases locked
      · rw [heading] at locked; cases locked
      · rw [sleeps] at locked; cases locked
  have noLeader : ∀ other, (system.pc other).role = .outside ∨ (system.pc other).role = .waiting := by
    intro other
    rcases kinds other with out | ⟨-, taken⟩ | ⟨extraWaits, sleeps, -⟩
    · exact Or.inl out
    · exact absurd unlocked taken
    · exact Or.inr (by rw [sleeps]; rfl)
  rcases kinds id with out | ⟨-, taken⟩ | ⟨extraWaits, sleeps, zero⟩
  · exact inCall (idle id out)
  · exact taken unlocked
  · have waiting : (system.pc id).role = .waiting := by rw [sleeps]; rfl
    have away : place id = .away := by
      cases stands : place id with
      | away => rfl
      | forming =>
        have leads := (invariant.placed.forming id stands).2.2
        rcases noLeader (system.groupLeader id) with same | same <;> rw [same] at leads <;> cases leads
      | todo leader =>
        have carrying := (invariant.placed.todo id leader stands).1
        rcases noLeader leader with same | same <;> rw [same] at carrying <;> cases carrying
      | done leader =>
        have serves := (invariant.placed.done id leader stands).1
        rcases noLeader leader with same | same <;> rw [same] at serves <;> rcases serves with h | h <;> cases h
    rcases rescued id extraWaits sleeps (invariant.placed.waiting id waiting away)
      with awake | ⟨leader, next, -, soon⟩
    · omega
    · have releasing : (system.pc leader).role = .releasing := by
        rcases soon with ⟨field, same⟩ | same <;> rw [same] <;> rfl
      rcases noLeader leader with same | same <;> rw [same] at releasing <;> cases releasing

/-- `latestCompletedXid` covers every request that was carried out. -/
def Covered (system : GroupSystem) : Prop :=
  ∀ carried ∈ system.carried, carried.action.latestXid ≤ system.latestCompletedXid

theorem Covered.carryOut (covered : Covered system) (backend member : Nat) (action : Action) :
    Covered (system.carryOut backend member action) := by
  intro carried inside
  show carried.action.latestXid ≤ advanceLatest system.latestCompletedXid action.latestXid
  unfold advanceLatest
  rcases List.mem_cons.mp inside with rfl | old
  · dsimp only
    split_ifs <;> omega
  · have := covered carried old
    split_ifs <;> omega

theorem Covered.step (covered : Covered system) (event : GroupEvent) : Covered (system.step event) := by
  cases event with
  | call backend request =>
    simp only [GroupSystem.step]
    split_ifs <;> exact covered
  | wake backend => exact covered
  | work backend proc =>
    simp only [GroupSystem.step]
    split_ifs <;> exact covered
  | advance backend =>
    simp only [GroupSystem.step, GroupSystem.advance]
    cases system.pc backend with
    | ending wake member => exact covered.carryOut backend member _
    | removing wake member field copy =>
      dsimp only
      split_ifs
      · exact covered
      · exact covered.carryOut backend member _
    | joining seen | sleeping extraWaits | locking | detaching seen | signalling member next =>
      dsimp only
      split_ifs <;> exact covered
    | repaying extraWaits => cases extraWaits <;> exact covered
    | visiting wake cur => cases cur <;> exact covered
    | waking cur => cases cur <;> exact covered
    | _ => exact covered

/-- What a state shows: calls that returned were carried out once each, with the effect that was asked for
and by the leader of the group; no backend is in two lists. -/
structure Sound (system : GroupSystem) : Prop where
  once : ∀ id, system.pc id = .idle → system.askedOf id = system.carriedOf id
  atMostOnce : ∀ id, ∃ waiting, system.askedOf id = waiting ++ system.carriedOf id
  settled : ∀ id request before, system.pc id = .idle → system.opened id = some (request, before) →
    request.Settled before (system.proc id)
  covered : ∀ carried ∈ system.carried, carried.action.latestXid ≤ system.latestCompletedXid
  leads : ∀ leader wake id,
    system.pc leader = .ending wake id ∨ (∃ field copy, system.pc leader = .removing wake id field copy) →
    system.lock = some leader ∧ system.groupLeader id = leader
  lists : ∃ lists : Option Nat → List Nat,
    (∀ key, Listed system.next (system.start key) (lists key) ∧ (system.taken key ++ lists key).Nodup) ∧
      ∀ key other id, id ∈ system.taken key ++ lists key → id ∈ system.taken other ++ lists other → key = other
  empty : (∀ id, system.pc id = .idle) → system.first = none
  progress : ∀ id, system.pc id ≠ .idle → ∃ other, system.blocked other = false

/-- The list a place belongs to. -/
def GroupPlace.list : GroupPlace → Option (Option Nat)
  | .away => none
  | .forming => some none
  | .todo leader | .done leader => some (some leader)

/-- Each list holds exactly the backends placed there. -/
theorem GroupInvariant.members (invariant : GroupInvariant system place) (key : Option Nat) :
    ∃ slots, Listed system.next (system.start key) slots ∧ (system.taken key ++ slots).Nodup ∧
      ∀ id, id ∈ system.taken key ++ slots → (GroupPlace.list (place id)) = some key := by
  have absent : Listed system.next none [] := rfl
  cases key with
  | none =>
    obtain ⟨slots, listed, nodup, members⟩ := invariant.lists.forming
    refine ⟨slots, listed, nodup, ?_⟩
    intro id inside
    rw [(members id).mp inside]
    rfl
  | some leader =>
    have walks : ∀ wake cur, (system.pc leader).walk system.next = some (wake, cur) → ∃ slots,
        Listed system.next wake slots ∧ slots.Nodup ∧ ∀ id, id ∈ slots →
        (GroupPlace.list (place id)) = some (some leader) := by
      intro wake cur walking
      obtain ⟨front, back, whole, -, nodup, isDone, isTodo⟩ := invariant.lists.walk leader wake cur walking
      refine ⟨front ++ back, whole, nodup, ?_⟩
      intro id inside
      rcases List.mem_append.mp inside with before | after
      · rw [(isDone id).mp before]; rfl
      · rw [(isTodo id).mp after]; rfl
    have rests : ∀ held cur, (system.pc leader).rest = some (held, cur) → ∃ slots,
        Listed system.next cur slots ∧ (held.toList ++ slots).Nodup ∧
          ∀ id, id ∈ held.toList ++ slots → (GroupPlace.list (place id)) = some (some leader) := by
      intro held cur resting
      obtain ⟨slots, listed, nodup, isDone⟩ := invariant.lists.rest leader held cur resting
      refine ⟨slots, listed, nodup, ?_⟩
      intro id inside
      rw [(isDone id).mp inside]
      rfl
    unfold start taken
    dsimp only
    cases stands : system.pc leader with
    | visiting wake cur => exact walks wake cur (by rw [stands]; rfl)
    | ending wake member => exact walks wake (some member) (by rw [stands]; rfl)
    | removing wake member field copy => exact walks wake (some member) (by rw [stands]; rfl)
    | following wake member => exact walks wake (system.next member) (by rw [stands]; rfl)
    | waking cur => exact rests .none cur (by rw [stands]; rfl)
    | unlinking member next => exact rests (some member) next (by rw [stands]; rfl)
    | resetting member next field =>
      cases field with
      | zero => exact rests (some member) next (by rw [stands]; rfl)
      | succ field => exact rests .none next (by rw [stands]; rfl)
    | signalling member next => exact rests .none next (by rw [stands]; rfl)
    | _ => exact ⟨[], absent, List.nodup_nil, nofun⟩

theorem GroupInvariant.sound (invariant : GroupInvariant system place) (rescued : Rescued system)
    (covered : Covered system) : Sound system := by
  have free : ∀ id, system.pc id = .idle → ¬ system.Pending place id :=
    fun id idle => invariant.not_pending (by rw [idle]; rfl)
  refine ⟨?_, ?_, ?_, covered, ?_, ?_, ?_, fun id inCall => progress invariant rescued inCall⟩
  · exact fun id idle => (invariant.accounts.settled id (free id idle)).1
  · intro id
    by_cases pending : system.Pending place id
    · obtain ⟨request, before, -, -, asked⟩ := invariant.accounts.waiting id pending
      exact ⟨[request.action], asked⟩
    · exact ⟨[], (invariant.accounts.settled id pending).1⟩
  · intro id request before idle isOpen
    rw [(invariant.accounts.settled id (free id idle)).2 request before isOpen]
    exact request.settled_apply before
  · intro leader wake id stands
    obtain ⟨carrying, -, -, same⟩ := invariant.placed.todo id leader (invariant.reads stands)
    exact ⟨(invariant.placed.locks leader).mpr (by rw [carrying]; rfl), same⟩
  · choose lists listed nodup members using invariant.members
    refine ⟨lists, fun key => ⟨listed key, nodup key⟩, ?_⟩
    intro key other id inside also
    exact Option.some.inj ((members key id inside).symm.trans (members other id also))
  · intro allIdle
    obtain ⟨slots, listed, -, members⟩ := invariant.lists.forming
    refine listed.eq_nil_iff.mp (List.eq_nil_iff_forall_not_mem.mpr ?_)
    intro id inside
    have away := invariant.placed.away (Or.inl (by show (system.pc id).role = _; rw [allIdle id]; rfl))
    rw [(members id).mp inside] at away
    cases away

/-- Whatever the interleaving, as long as nobody posts a request into fields that are still being reset. -/
theorem group_sound (events : List GroupEvent) (whole : Along step Whole init events) :
    Sound (run step init events) := by
  obtain ⟨⟨place, invariant⟩, rescued, covered⟩ := run_invariant_along
    (fun system => (∃ place, GroupInvariant system place) ∧ Rescued system ∧ Covered system)
    (fun _ event allowed holds => by
      obtain ⟨⟨place, invariant⟩, rescued, covered⟩ := holds
      exact ⟨invariant.step event allowed, rescued.step invariant event, covered.step event⟩)
    whole ⟨⟨_, init_invariant⟩, nofun, nofun⟩
  exact invariant.sound rescued covered

/-- Backend 1 follows backend 0 and takes a wake-up from elsewhere for its own; then both return. -/
def ledCall : List GroupEvent :=
  let advance (backend times : Nat) := List.replicate times (GroupEvent.advance backend)
  [.work 1 { xid := 7, subxids := [8, 9] }, .call 0 (.transaction 5), .call 1 (.subTransaction 8 [] 8)] ++
    (advance 0 8 ++ advance 1 8 ++ [.wake 1] ++ advance 1 2 ++ advance 0 31 ++ advance 1 4)

theorem group_sound_call : Sound (run step init ledCall) ∧
    (run step init ledCall).pc 0 = .idle ∧ (run step init ledCall).pc 1 = .idle ∧
    (run step init ledCall).carried = [⟨0, 0, .endTransaction 5⟩, ⟨0, 1, .removeSubXids 8 0 [] 8⟩] := by
  refine ⟨group_sound ledCall ?_, by decide +kernel, by decide +kernel, by decide +kernel⟩
  refine (along_append _ _ _ _).mpr ⟨⟨trivial, nofun, ?_, trivial⟩, along_iff.mpr ?_⟩
  · rintro (_ | leader) <;> nofun
  · rintro before event after split
    have member : event ∈ before ++ event :: after := by simp
    rw [← split] at member
    have quiet : event = .advance 0 ∨ event = .advance 1 ∨ event = .wake 1 := by
      simp at member
      tauto
    rcases quiet with rfl | rfl | rfl <;> trivial

/-- Backend 1 follows backend 0, is woken from elsewhere when its mark is reset, and posts its next request
before the leader resets the other fields. -/
def earlyCall : List GroupEvent :=
  let advance (backend times : Nat) := List.replicate times (GroupEvent.advance backend)
  [.work 1 { xid := 7, subxids := [8, 9] }, .call 0 (.transaction 5), .call 1 (.subTransaction 8 [] 8)] ++
    advance 0 8 ++ advance 1 8 ++ advance 0 17 ++ [.wake 1] ++ advance 1 3 ++
    [.call 1 (.subTransaction 9 [] 9)] ++ advance 1 5 ++ advance 0 4 ++ advance 1 21

/-- The subtransaction request is read as the end of a transaction. -/
theorem group_not_sound : ¬ ∀ events, Sound (run step init events) := by
  intro all
  have idle : (run step init earlyCall).pc 1 = .idle := by decide +kernel
  have once := (all earlyCall).once 1 idle
  have different : (run step init earlyCall).askedOf 1 ≠ (run step init earlyCall).carriedOf 1 := by
      decide +kernel
  exact different once

end GroupSystem

end OpenGauss.ProcArray
