import OpenGauss.ProcArray.GroupLists

namespace OpenGauss.ProcArray

namespace GroupCache

/-- The first fields, from `start` on, are those of `source`. -/
def Written (source : GroupCache) (start count : Nat) (cache : GroupCache) : Prop :=
  ∀ field, start ≤ field → field < count → source.put field cache = cache

theorem put_put (source cache : GroupCache) (field : Nat) :
    source.put field (source.put field cache) = source.put field cache := by
  rcases field with _ | _ | _ | _ | field <;> rfl

theorem put_comm (source cache : GroupCache) (field other : Nat) :
    source.put field (source.put other cache) = source.put other (source.put field cache) := by
  rcases field with _ | _ | _ | _ | field <;> rcases other with _ | _ | _ | _ | other <;> rfl

theorem Written.put {source cache : GroupCache} {start count : Nat}
    (written : Written source start count cache) :
    Written source start (count + 1) (source.put count cache) := by
  intro field atLeast below
  rcases Nat.lt_succ_iff_lt_or_eq.mp below with before | rfl
  · rw [put_comm, written field atLeast before]
  · exact put_put source cache field

theorem Written.all {source cache : GroupCache} (written : Written source 0 5 cache) : cache = source := by
  have member := congrArg GroupCache.member (written 0 (by omega) (by omega))
  have xid := congrArg GroupCache.memberXid (written 1 (by omega) (by omega))
  have nxids := congrArg GroupCache.subXactNXids (written 2 (by omega) (by omega))
  have xids := congrArg GroupCache.subXactXids (written 3 (by omega) (by omega))
  have latest := congrArg GroupCache.subXactLatestXid (written 4 (by omega) (by omega))
  cases cache
  cases source
  cases member
  cases xid
  cases nxids
  cases xids
  cases latest
  rfl

/-- The four fields that `XidCacheRemoveRunningXids` reads. -/
theorem Written.fields {source cache : GroupCache} (written : Written source 1 5 cache) :
    cache.memberXid = source.memberXid ∧ cache.subXactNXids = source.subXactNXids ∧
      cache.subXactXids = source.subXactXids ∧ cache.subXactLatestXid = source.subXactLatestXid :=
  ⟨(congrArg GroupCache.memberXid (written 1 (by omega) (by omega))).symm,
    (congrArg GroupCache.subXactNXids (written 2 (by omega) (by omega))).symm,
    (congrArg GroupCache.subXactXids (written 3 (by omega) (by omega))).symm,
    (congrArg GroupCache.subXactLatestXid (written 4 (by omega) (by omega))).symm⟩

end GroupCache

namespace Request

theorem action_of_ending {request : Request} (valid : request.valid)
    (zero : request.cache.subXactLatestXid = 0) :
    .endTransaction request.cache.memberXid = request.action := by
  cases request with
  | transaction latestXid => rfl
  | subTransaction xid xids latestXid =>
    obtain rfl : latestXid = 0 := zero
    cases valid

theorem action_of_removing {request : Request} (nonzero : request.cache.subXactLatestXid ≠ 0) :
    .removeSubXids request.cache.memberXid request.cache.subXactNXids request.cache.subXactXids
      request.cache.subXactLatestXid = request.action := by
  cases request with
  | transaction latestXid => exact absurd rfl nonzero
  | subTransaction xid xids latestXid => rfl

/-- What a request is for. -/
def Settled : Request → ProcXact → ProcXact → Prop
  | .transaction _, _, after => after = {}
  | .subTransaction xid xids _, before, after =>
    after.subxids.Perm (before.subxids.diff (xids ++ [xid])) ∧ after = { before with subxids := after.subxids }

theorem settled_apply (request : Request) (before : ProcXact) :
    request.Settled before (request.action.apply before) := by
  cases request with
  | transaction latestXid => rfl
  | subTransaction xid xids latestXid => exact removeRunningXids_spec before xid xids

end Request

namespace GroupPc

/-- Every field of the request is written. -/
def posted : GroupPc → Bool
  | .reading | .linking _ | .joining _ => true
  | _ => false

theorem role_of_posted {pc : GroupPc} (full : pc.posted) : pc.role = .entering := by
  cases pc <;> first | rfl | exact Bool.noConfusion full

end GroupPc

/-- The fields hold the request from when they are written until the first one is reset. -/
structure GroupRequests (pc : Nat → GroupPc) (cache : Nat → GroupCache)
    (opened : Nat → Option (Request × ProcXact))
    (place : Nat → GroupPlace) : Prop where
  valid : ∀ id request before, opened id = some (request, before) → request.valid
  posting : ∀ id request field, pc id = .posting request field →
    field ≤ 4 ∧ (∃ before, opened id = some (request, before)) ∧ request.cache.Written 0 field (cache id)
  posted : ∀ id, (pc id).posted ∨ place id ≠ .away →
    ∃ request before, opened id = some (request, before) ∧ cache id = request.cache
  ending : ∀ leader wake id, pc leader = .ending wake id → (cache id).subXactLatestXid = 0
  removing : ∀ leader wake id field copy, pc leader = .removing wake id field copy →
    (cache id).subXactLatestXid ≠ 0 ∧ field ≤ 5 ∧ (cache id).Written 1 field copy

namespace GroupRequests

variable {pc pc' : Nat → GroupPc} {cache cache' : Nat → GroupCache}
  {opened opened' : Nat → Option (Request × ProcXact)} {place place' : Nat → GroupPlace} {backend : Nat}

/-- A step of one backend that leaves the fields of the others in lists alone. -/
theorem frame (requests : GroupRequests pc cache opened place)
    (samePc : ∀ other, other ≠ backend → pc' other = pc other)
    (sameCache : ∀ id, id ≠ backend → (pc id).role = .entering ∨ place' id ≠ .away → cache' id = cache id)
    (sameOpened : ∀ id, id ≠ backend → opened' id = opened id)
    (samePlace : ∀ id, id ≠ backend → place' id ≠ .away → place id ≠ .away)
    (sameRead : ∀ leader wake id, leader ≠ backend →
      pc leader = .ending wake id ∨ (∃ field copy, pc leader = .removing wake id field copy) →
      cache' id = cache id)
    (valid : ∀ request before, opened' backend = some (request, before) → request.valid)
    (posting : ∀ request field, pc' backend = .posting request field →
      field ≤ 4 ∧ (∃ before, opened' backend = some (request, before)) ∧
      request.cache.Written 0 field (cache' backend))
    (posted : (pc' backend).posted ∨ place' backend ≠ .away →
      ∃ request before, opened' backend = some (request, before) ∧ cache' backend = request.cache)
    (ending : ∀ wake id, pc' backend = .ending wake id → (cache' id).subXactLatestXid = 0)
    (removing : ∀ wake id field copy, pc' backend = .removing wake id field copy →
      (cache' id).subXactLatestXid ≠ 0 ∧ field ≤ 5 ∧ (cache' id).Written 1 field copy) :
    GroupRequests pc' cache' opened' place' := by
  refine ⟨?_, ?_, ?_, ?_, ?_⟩
  · intro id request before isOpen
    by_cases here : id = backend
    · subst here
      exact valid request before isOpen
    · rw [sameOpened id here] at isOpen
      exact requests.valid id request before isOpen
  · intro id request field stands
    by_cases here : id = backend
    · subst here
      exact posting request field stands
    · rw [samePc id here] at stands
      rw [sameOpened id here, sameCache id here (Or.inl (by rw [stands]; rfl))]
      exact requests.posting id request field stands
  · intro id full
    by_cases here : id = backend
    · subst here
      exact posted full
    · rw [samePc id here] at full
      rw [sameOpened id here]
      rcases full with written | placed
      · rw [sameCache id here (Or.inl (GroupPc.role_of_posted written))]
        exact requests.posted id (Or.inl written)
      · rw [sameCache id here (Or.inr placed)]
        exact requests.posted id (Or.inr (samePlace id here placed))
  · intro leader wake id stands
    by_cases here : leader = backend
    · subst here
      exact ending wake id stands
    · rw [samePc leader here] at stands
      rw [sameRead leader wake id here (Or.inl stands)]
      exact requests.ending leader wake id stands
  · intro leader wake id field copy stands
    by_cases here : leader = backend
    · subst here
      exact removing wake id field copy stands
    · rw [samePc leader here] at stands
      rw [sameRead leader wake id here (Or.inr ⟨field, copy, stands⟩)]
      exact requests.removing leader wake id field copy stands

end GroupRequests

/-- What was asked of a backend's leaders was carried out, except for a request that is still pending. -/
structure GroupAccounts (pending : Nat → Prop) (opened : Nat → Option (Request × ProcXact))
    (proc : Nat → ProcXact)
    (asked carried : Nat → List Action) : Prop where
  waiting : ∀ id, pending id → ∃ request before, opened id = some (request, before) ∧ proc id = before ∧
    asked id = request.action :: carried id
  settled : ∀ id, ¬ pending id → asked id = carried id ∧
    ∀ request before, opened id = some (request, before) → proc id = request.action.apply before

namespace GroupAccounts

variable {pending pending' : Nat → Prop} {opened opened' : Nat → Option (Request × ProcXact)}
  {proc proc' : Nat → ProcXact} {asked asked' carried carried' : Nat → List Action} {id : Nat}

variable (accounts : GroupAccounts pending opened proc asked carried)
include accounts

theorem congr (same : ∀ id, pending' id ↔ pending id) :
    GroupAccounts pending' opened proc asked carried :=
  ⟨fun id waits => accounts.waiting id ((same id).mp waits),
    fun id idle => accounts.settled id fun waits => idle ((same id).mpr waits)⟩

theorem call {request : Request}
    (idle : ¬ pending id) (pending_iff : ∀ other, pending' other ↔ other = id ∨ pending other)
    (opened_eq : ∀ other, opened' other = if other = id then some (request, proc id) else opened other)
    (asked_eq : ∀ other, asked' other = if other = id then request.action :: asked other else asked other) :
    GroupAccounts pending' opened' proc asked' carried := by
  constructor
  · intro other waits
    by_cases here : other = id
    · subst here
      rw [opened_eq, asked_eq, if_pos rfl, if_pos rfl]
      exact ⟨request, proc other, rfl, rfl, by rw [(accounts.settled other idle).1]⟩
    · rw [opened_eq, asked_eq, if_neg here, if_neg here]
      exact accounts.waiting other (((pending_iff other).mp waits).resolve_left here)
  · intro other free
    rw [pending_iff, not_or] at free
    rw [opened_eq, asked_eq, if_neg free.1, if_neg free.1]
    exact accounts.settled other free.2

theorem carry {request : Request} {before : ProcXact}
    (waits : pending id) (pending_iff : ∀ other, pending' other ↔ other ≠ id ∧ pending other)
    (isOpen : opened id = some (request, before))
    (proc_eq : ∀ other, proc' other = if other = id then request.action.apply (proc id) else proc other)
    (carried_eq : ∀ other, carried' other = if other = id then request.action :: carried other
      else carried other) :
    GroupAccounts pending' opened proc' asked carried' := by
  constructor
  · intro other still
    rw [pending_iff] at still
    rw [proc_eq, carried_eq, if_neg still.1, if_neg still.1]
    exact accounts.waiting other still.2
  · intro other free
    by_cases here : other = id
    · subst here
      obtain ⟨posted, state, sameOpen, sameProc, askedFor⟩ := accounts.waiting other waits
      rw [isOpen] at sameOpen
      cases sameOpen
      rw [proc_eq, carried_eq, if_pos rfl, if_pos rfl]
      refine ⟨askedFor, ?_⟩
      intro again state again_eq
      rw [isOpen] at again_eq
      cases again_eq
      rw [sameProc]
    · rw [proc_eq, carried_eq, if_neg here, if_neg here]
      exact accounts.settled other fun still => free ((pending_iff other).mpr ⟨here, still⟩)

theorem work (idle : ¬ pending id)
    (opened_eq : ∀ other, opened' other = if other = id then none else opened other)
    (proc_eq : ∀ other, other ≠ id → proc' other = proc other) :
    GroupAccounts pending opened' proc' asked carried := by
  constructor
  · intro other waits
    have apart : other ≠ id := by
      rintro rfl
      exact idle waits
    rw [opened_eq, proc_eq other apart, if_neg apart]
    exact accounts.waiting other waits
  · intro other free
    refine ⟨(accounts.settled other free).1, ?_⟩
    intro request before isOpen
    rw [opened_eq] at isOpen
    by_cases here : other = id
    · simp [here] at isOpen
    · rw [if_neg here] at isOpen
      rw [proc_eq other here]
      exact (accounts.settled other free).2 request before isOpen

end GroupAccounts

open Lib

/-- A request in this place is not carried out yet. -/
def GroupPlace.waits : GroupPlace → Bool
  | .forming | .todo _ => true
  | _ => false

namespace GroupSystem

variable (system : GroupSystem)

/-- What was asked for a backend, and what was carried out for it, the newest first. -/
def askedOf (id : Nat) : List Action :=
  (system.asked.filter fun call => call.1 = id).map fun call => call.2.action

def carriedOf (id : Nat) : List Action :=
  (system.carried.filter fun carried => carried.member = id).map Carried.action

def Pending (place : Nat → GroupPlace) (id : Nat) : Prop :=
  (system.pc id).role = .entering ∨ (place id).waits

/-- Who is in which list, what the links and the request fields say, and the account of the requests. -/
structure GroupInvariant (system : GroupSystem) (place : Nat → GroupPlace) : Prop where
  placed : Placement (fun id => (system.pc id).role) (fun id => (system.pc id).halfway) place
    (fun id => (system.cache id).member) system.groupLeader system.lock
  lists : GroupLists system.pc system.next system.first place
  requests : GroupRequests system.pc system.cache system.opened place
  accounts : GroupAccounts (system.Pending place) system.opened system.proc system.askedOf system.carriedOf

@[simp] theorem setPc_pc (backend : Nat) (pc : GroupPc) (other : Nat) :
    (system.setPc backend pc).pc other = if other = backend then pc else system.pc other := by
  simp [setPc, Function.update_apply]

@[simp] theorem setCache_cache (backend : Nat) (cache : GroupCache) (other : Nat) :
    (system.setCache backend cache).cache other = if other = backend then cache else system.cache other := by
  simp [setCache, Function.update_apply]

@[simp] theorem setNext_next (backend : Nat) (next : Option Nat) (other : Nat) :
    (system.setNext backend next).next other = if other = backend then next else system.next other := by
  simp [setNext, Function.update_apply]

variable {system : GroupSystem} {place place' : Nat → GroupPlace} {backend : Nat} {pc : GroupPc}

theorem setPc_role (other : Nat) : ((system.setPc backend pc).pc other).role =
    if other = backend then pc.role else (system.pc other).role := by
  rw [setPc_pc]
  split <;> rfl

theorem setPc_halfway (other : Nat) : ((system.setPc backend pc).pc other).halfway =
    if other = backend then pc.halfway else (system.pc other).halfway := by
  rw [setPc_pc]
  split <;> rfl

theorem setPc_role_same (same : pc.role = (system.pc backend).role) :
    (fun id => ((system.setPc backend pc).pc id).role) = fun id => (system.pc id).role := by
  funext id
  rw [setPc_role]
  split_ifs with here
  · rw [same, here]
  · rfl

theorem setPc_halfway_same (same : pc.halfway = (system.pc backend).halfway) :
    (fun id => ((system.setPc backend pc).pc id).halfway) = fun id => (system.pc id).halfway := by
  funext id
  rw [setPc_halfway]
  split_ifs with here
  · rw [same, here]
  · rfl

theorem setPc_pending (same : pc.role = .entering ↔ (system.pc backend).role = .entering)
    (place_eq : ∀ id, (place' id).waits = (place id).waits) (id : Nat) :
    (system.setPc backend pc).Pending place' id ↔ system.Pending place id := by
  unfold Pending
  rw [setPc_role, place_eq]
  by_cases here : id = backend
  · rw [if_pos here, here, same]
  · rw [if_neg here]

/-- What a backend relies on where it stands. -/
structure GroupStand (system : GroupSystem) (place : Nat → GroupPlace) (backend : Nat)
    (pc : GroupPc) : Prop where
  walk : ∀ wake cur, pc.walk system.next = some (wake, cur) → GroupWalk system.next place backend wake cur
  rest : ∀ held cur, pc.rest = some (held, cur) → GroupRest system.next place backend held cur
  following : ∀ wake id, pc = .following wake id → place id = .done backend
  linked : ∀ seen, pc = .joining seen → system.next backend = seen
  ending : ∀ wake id, pc = .ending wake id → (system.cache id).subXactLatestXid = 0
  removing : ∀ wake id field copy, pc = .removing wake id field copy →
    (system.cache id).subXactLatestXid ≠ 0 ∧ field ≤ 5 ∧ (system.cache id).Written 1 field copy

namespace GroupInvariant

section

variable (invariant : GroupInvariant system place)

include invariant

theorem setSem (count : Nat) : GroupInvariant (system.setSem backend count) place :=
  ⟨invariant.placed, invariant.lists, invariant.requests, invariant.accounts⟩

/-- Nothing changes but where a backend stands, and who has the lock. -/
theorem turn {lock : Option Nat} (placed : Placement (fun id => ((system.setPc backend pc).pc id).role)
      (fun id => ((system.setPc backend pc).pc id).halfway) place (fun id => (system.cache id).member)
      system.groupLeader lock)
    (entering : pc.role = .entering ↔ (system.pc backend).role = .entering)
    (posting : ∀ request field, pc ≠ .posting request field)
    (posted : pc.posted → (system.pc backend).posted)
    (stand : GroupStand system place backend pc) :
    GroupInvariant { system.setPc backend pc with lock } place := by
  have samePc : ∀ other, other ≠ backend → (system.setPc backend pc).pc other = system.pc other :=
    fun other apart => by rw [setPc_pc, if_neg apart]
  have here : (system.setPc backend pc).pc backend = pc := by rw [setPc_pc, if_pos rfl]
  refine ⟨placed, ?_, ?_, ?_⟩
  · exact invariant.lists.move samePc (by rw [here]; exact stand.walk) (by rw [here]; exact stand.rest)
      (by rw [here]; exact stand.following) (by rw [here]; exact stand.linked)
  · refine invariant.requests.frame samePc (fun _ _ _ => rfl) (fun _ _ => rfl) (fun _ _ full => full)
      (fun _ _ _ _ _ => rfl) (invariant.requests.valid backend) ?_ ?_ (by rw [here]; exact stand.ending)
      (by rw [here]; exact stand.removing)
    · rw [here]
      exact fun request field same => absurd same (posting request field)
    · rw [here]
      exact fun full => invariant.requests.posted backend (full.imp_left posted)
  · exact invariant.accounts.congr (setPc_pending entering fun _ => rfl)

/-- A step that only the backend itself sees. -/
theorem move (role : pc.role = (system.pc backend).role)
    (halfway : pc.halfway = (system.pc backend).halfway)
      (posting : ∀ request field, pc ≠ .posting request field)
    (posted : pc.posted → (system.pc backend).posted) (stand : GroupStand system place backend pc) :
    GroupInvariant (system.setPc backend pc) place := by
  refine @turn system place backend pc invariant system.lock ?_ (by rw [role]) posting posted stand
  rw [setPc_role_same role, setPc_halfway_same halfway]
  exact invariant.placed

/-- A backend that is in no list is in nobody's way. -/
theorem not_pending (outside : (system.pc backend).role = .outside) : ¬ system.Pending place backend := by
  rintro (entering | waits)
  · rw [outside] at entering
    cases entering
  · rw [invariant.placed.away (Or.inl outside)] at waits
    cases waits

/-- Where a leader stands, there is a request still to be carried out. -/
theorem reads {leader id : Nat} {wake : Option Nat}
    (stands : system.pc leader = .ending wake id ∨ ∃ field copy, system.pc leader =
      .removing wake id field copy) :
    place id = .todo leader := by
  have walks : (system.pc leader).walk system.next = some (wake, some id) := by
    rcases stands with same | ⟨field, copy, same⟩
    · rw [same]; rfl
    · rw [same]; rfl
  exact (invariant.lists.walk leader wake (some id) walks).cursor

end

end GroupInvariant

end GroupSystem

end OpenGauss.ProcArray
