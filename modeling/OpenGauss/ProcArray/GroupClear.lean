import OpenGauss.ProcArray.XidCache
import OpenGauss.Lib.Run

/-! Group clearing of transaction ids: every access to a field that backends share is one step. A
semaphore may also be posted from elsewhere at any time. -/

namespace OpenGauss.ProcArray

inductive Request where
  | transaction (latestXid : Nat)
  | subTransaction (xid : Nat) (xids : List Nat) (latestXid : Nat)
  deriving DecidableEq, Repr

inductive Action where
  | endTransaction (latestXid : Nat)
  | removeSubXids (xid nxids : Nat) (xids : List Nat) (latestXid : Nat)
  deriving DecidableEq, Repr

/-- The request fields of a `PGPROC`, in the order in which they are written. -/
structure GroupCache where
  member : Bool := false
  memberXid : Nat := 0
  subXactNXids : Nat := 0
  subXactXids : List Nat := []
  subXactLatestXid : Nat := 0
  deriving DecidableEq, Repr

namespace GroupCache

def put (source : GroupCache) (field : Nat) (cache : GroupCache) : GroupCache :=
  match field with
  | 0 => { cache with member := source.member }
  | 1 => { cache with memberXid := source.memberXid }
  | 2 => { cache with subXactNXids := source.subXactNXids }
  | 3 => { cache with subXactXids := source.subXactXids }
  | _ => { cache with subXactLatestXid := source.subXactLatestXid }

end GroupCache

namespace Request

def cache : Request → GroupCache
  | .transaction latestXid => { member := true, memberXid := latestXid }
  | .subTransaction xid xids latestXid =>
    { member := true, memberXid := xid, subXactNXids := xids.length, subXactXids := xids
      subXactLatestXid := latestXid }

def action : Request → Action
  | .transaction latestXid => .endTransaction latestXid
  | .subTransaction xid xids latestXid => .removeSubXids xid xids.length xids latestXid

/-- A subtransaction that is aborted has an xid, so the latest of its xids is one. -/
def valid : Request → Bool
  | .transaction _ => true
  | .subTransaction _ _ latestXid => latestXid ≠ 0

end Request

namespace Action

def latestXid : Action → Nat
  | .endTransaction latestXid => latestXid
  | .removeSubXids _ _ _ latestXid => latestXid

def apply : Action → ProcXact → ProcXact
  | .endTransaction _, proc => endTransactionInternal proc
  | .removeSubXids xid nxids xids _, proc => removeRunningXids proc xid nxids xids

end Action

inductive GroupPc where
  | idle
  | posting (request : Request) (field : Nat)
  /-- In the loop of `ProcInsertIntoGroup`: before the read, the write and the exchange. -/
  | reading
  | linking (seen : Option Nat)
  | joining (seen : Option Nat)
  /-- A follower: before `PGSemaphoreLock`, before the check, and paying back what it absorbed. -/
  | sleeping (extraWaits : Nat)
  | checking (extraWaits : Nat)
  | repaying (extraWaits : Nat)
  /-- The leader: before the lock, and in the loop that takes the list. -/
  | locking
  | draining
  | detaching (seen : Option Nat)
  /-- The walk under the lock, from `cur`; `wake` is the head of the list. -/
  | visiting (wake cur : Option Nat)
  | ending (wake : Option Nat) (member : Nat)
  | removing (wake : Option Nat) (member field : Nat) (copy : GroupCache)
  | following (wake : Option Nat) (member : Nat)
  | waking (cur : Option Nat)
  | unlinking (member : Nat) (next : Option Nat)
  | resetting (member : Nat) (next : Option Nat) (field : Nat)
  | signalling (member : Nat) (next : Option Nat)
  deriving DecidableEq, Repr

structure Carried where
  leader : Nat
  member : Nat
  action : Action
  deriving DecidableEq, Repr

structure GroupSystem where
  /-- `procArrayGroupFirst`, and the `procArrayGroupNext` of each backend. -/
  first : Option Nat := none
  next : Nat → Option Nat := fun _ => none
  cache : Nat → GroupCache := fun _ => {}
  sem : Nat → Nat := fun _ => 0
  lock : Option Nat := none
  latestCompletedXid : Nat := 0
  proc : Nat → ProcXact := fun _ => {}
  pc : Nat → GroupPc := fun _ => .idle
  /-- The calls so far and what leaders carried out, the newest first. -/
  asked : List (Nat × Request) := []
  carried : List Carried := []
  /-- The last call of a backend with its state at that moment, until it goes on with its own work. -/
  opened : Nat → Option (Request × ProcXact) := fun _ => none
  /-- The backend that was the first of the group that a backend joined last. -/
  groupLeader : Nat → Nat := id

inductive GroupEvent where
  | call (backend : Nat) (request : Request)
  | advance (backend : Nat)
  | wake (backend : Nat)
  | work (backend : Nat) (proc : ProcXact)
  deriving Repr

namespace GroupSystem

variable (system : GroupSystem)

variable (backend : Nat)

def setPc (pc : GroupPc) : GroupSystem :=
  { system with pc := Function.update system.pc backend pc }

def setCache (cache : GroupCache) : GroupSystem :=
  { system with cache := Function.update system.cache backend cache }

def setNext (next : Option Nat) : GroupSystem :=
  { system with next := Function.update system.next backend next }

def setSem (backend count : Nat) : GroupSystem :=
  { system with sem := Function.update system.sem backend count }

def carryOut (leader member : Nat) (action : Action) : GroupSystem :=
  { system with
    proc := Function.update system.proc member (action.apply (system.proc member))
    latestCompletedXid := advanceLatest system.latestCompletedXid action.latestXid
    carried := { leader, member, action } :: system.carried }

/-- The first of a group leads it; the others have the leader of the one they queue behind. -/
def leaderBehind : Option Nat → Nat
  | none => backend
  | some member => system.groupLeader member

def advance : GroupSystem :=
  match system.pc backend with
  | .idle => system
  | .posting request field =>
    (system.setCache backend (request.cache.put field (system.cache backend))).setPc backend
      (if field < 4 then .posting request (field + 1) else .reading)
  | .reading => system.setPc backend (.linking system.first)
  | .linking seen => (system.setNext backend seen).setPc backend (.joining seen)
  | .joining seen =>
    if system.first = seen then
      { system.setPc backend (if seen = none then .locking else .sleeping 0) with
        first := some backend
        groupLeader := Function.update system.groupLeader backend (system.leaderBehind backend seen) }
    else system.setPc backend .reading
  | .sleeping extraWaits =>
    if 0 < system.sem backend then
      (system.setSem backend (system.sem backend - 1)).setPc backend (.checking extraWaits)
    else system
  | .checking extraWaits =>
    system.setPc backend
      (if (system.cache backend).member then .sleeping (extraWaits + 1) else .repaying extraWaits)
  | .repaying 0 => system.setPc backend .idle
  | .repaying (extraWaits + 1) =>
    (system.setSem backend (system.sem backend + 1)).setPc backend (.repaying extraWaits)
  | .locking =>
    if system.lock = none then { system.setPc backend .draining with lock := some backend } else system
  | .draining => system.setPc backend (.detaching system.first)
  | .detaching seen =>
    if system.first = seen then { system.setPc backend (.visiting seen seen) with first := none }
    else system.setPc backend .draining
  | .visiting wake none => { system.setPc backend (.waking wake) with lock := none }
  | .visiting wake (some member) =>
    system.setPc backend
      (if (system.cache member).subXactLatestXid ≠ 0 then .removing wake member 1 {} else .ending wake member)
  | .ending wake member =>
    (system.carryOut backend member (.endTransaction (system.cache member).memberXid)).setPc backend
      (.following wake member)
  | .removing wake member field copy =>
    if field < 5 then
      system.setPc backend (.removing wake member (field + 1) ((system.cache member).put field copy))
    else
      (system.carryOut backend member (.removeSubXids copy.memberXid copy.subXactNXids copy.subXactXids
        copy.subXactLatestXid)).setPc backend (.following wake member)
  | .following wake member => system.setPc backend (.visiting wake (system.next member))
  | .waking none => system.setPc backend .idle
  | .waking (some member) => system.setPc backend (.unlinking member (system.next member))
  | .unlinking member next => (system.setNext member none).setPc backend (.resetting member next 0)
  | .resetting member next field =>
    (system.setCache member (GroupCache.put {} field (system.cache member))).setPc backend
      (if field < 4 then .resetting member next (field + 1) else .signalling member next)
  | .signalling member next =>
    (if member = backend then system else system.setSem member (system.sem member + 1)).setPc backend
      (.waking next)

def step : GroupEvent → GroupSystem
  | .call backend request =>
    if system.pc backend = .idle ∧ request.valid then
      { system.setPc backend (.posting request 0) with
        asked := (backend, request) :: system.asked
        opened := Function.update system.opened backend (some (request, system.proc backend)) }
    else system
  | .advance backend => system.advance backend
  | .wake backend => system.setSem backend (system.sem backend + 1)
  | .work backend proc =>
    if system.pc backend = .idle then
      { system with
        proc := Function.update system.proc backend proc
        opened := Function.update system.opened backend none }
    else system

def init : GroupSystem := {}

def start : Option Nat → Option Nat
  | none => system.first
  | some leader =>
    match system.pc leader with
    | .visiting wake _ | .ending wake _ | .removing wake _ _ _ | .following wake _ => wake
    | .waking cur => cur
    | .unlinking _ next | .resetting _ next _ | .signalling _ next => next
    | _ => none

/-- The member that a leader took off its list and did not let go yet. -/
def taken : Option Nat → List Nat
  | none => []
  | some leader =>
    match system.pc leader with
    | .unlinking member _ | .resetting member _ 0 => [member]
    | _ => []

def blocked : Bool :=
  match system.pc backend with
  | .idle => true
  | .sleeping _ => system.sem backend = 0
  | .locking => system.lock ≠ none
  | _ => false

end GroupSystem

end OpenGauss.ProcArray
