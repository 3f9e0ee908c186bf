import OpenGauss.Lib.Run

/-! The tail of `SyncRepReleaseWaiters`: four calls of `AtomicUpdateIfGreater` and the wake-up.
Every read and every compare-exchange of a shared position is one step. -/

namespace OpenGauss.Replication

inductive SyncRepWaitMode where
  | receive | write | flush | apply
  deriving DecidableEq, Repr

/-- Return value, memory and `*expected` after a compare-exchange. -/
structure CompareExchange where
  ret : Bool
  memory : Nat
  expected : Nat
  deriving DecidableEq, Repr

def pgAtomicCompareExchangeU64 (memory expected newVal : Nat) : CompareExchange :=
  if memory = expected then ⟨true, newVal, expected⟩ else ⟨false, memory, memory⟩

inductive UpdatePc where
  | read
  | exchange (oldVal : Nat)
  | returned
  deriving DecidableEq, Repr

/-- One activation of `AtomicUpdateIfGreater`. `result` is this call's assignment to `*result`;
`stored` records whether its compare-exchange wrote `newVal`, which the code does not keep. -/
structure UpdateCall where
  mode : SyncRepWaitMode
  newVal : Nat
  pc : UpdatePc := .read
  result : Bool := false
  stored : Bool := false
  deriving DecidableEq, Repr

/-- The next atomic step of a call, on the current value of its position. -/
def UpdateCall.step (value : Nat) (call : UpdateCall) : Nat × UpdateCall :=
  match call.pc with
  | .read =>
    if value ≥ call.newVal then (value, { call with pc := .returned })
    else (value, { call with pc := .exchange value })
  | .exchange oldVal =>
    let exchanged := pgAtomicCompareExchangeU64 value oldVal call.newVal
    let call := { call with stored := call.stored || exchanged.ret }
    -- `currentVal` is the Boolean return value; `oldVal` was overwritten by the primitive.
    if exchanged.ret.toNat = exchanged.expected then
      (exchanged.memory, { call with pc := .returned, result := true })
    else (exchanged.memory, { call with pc := .read })
  | .returned => (value, call)

structure WalSndCtl where
  lsn : SyncRepWaitMode → Nat
  syncWaitProc : Option Nat := none
  latches : List Nat := []

def WalSndCtl.setLsn (ctl : WalSndCtl) (mode : SyncRepWaitMode) (value : Nat) : WalSndCtl :=
  { ctl with lsn := Function.update ctl.lsn mode value }

def WalSndCtl.setLatch (ctl : WalSndCtl) (proc : Nat) : WalSndCtl :=
  { ctl with latches := proc :: ctl.latches }

def WalSndCtl.syncRepWakeBackend (ctl : WalSndCtl) : WalSndCtl :=
  match ctl.syncWaitProc with
  | some proc => ctl.setLatch proc
  | none => ctl

/-- One execution of `SyncRepReleaseWaiters` past its early returns. -/
structure Release where
  returned : List UpdateCall := []
  pending : List UpdateCall
  updateResult : Bool := false
  left : Bool := false
  deriving DecidableEq, Repr

def Release.calls (release : Release) : List UpdateCall := release.returned ++ release.pending

/-- A release before its first call, with the positions found by `SyncRepGetSyncRecPtr`. -/
def Release.start (recPtr : SyncRepWaitMode → Nat) : Release where
  pending := [.receive, .write, .flush, .apply].map fun mode => ⟨mode, recPtr mode, .read, false, false⟩

def Release.step (ctl : WalSndCtl) (release : Release) : WalSndCtl × Release :=
  match release.pending with
  | call :: rest =>
    let (value, next) := call.step (ctl.lsn call.mode)
    let ctl := ctl.setLsn call.mode value
    let updateResult := release.updateResult || next.result
    if next.pc = .returned then
      (ctl, { release with returned := release.returned ++ [next], pending := rest, updateResult })
    else (ctl, { release with pending := next :: rest, updateResult })
  | [] =>
    if release.left then (ctl, release)
    else (if release.updateResult then ctl.syncRepWakeBackend else ctl, { release with left := true })

structure System where
  ctl : WalSndCtl
  releases : List Release

/-- A wal sender moves, or the backend holding `walSyncRepWaitLock` starts or ends its wait. -/
inductive Event where
  | walSnd (index : Nat)
  | backendWaits (proc : Nat)
  | backendWakes
  deriving DecidableEq, Repr

def System.step (system : System) : Event → System
  | .walSnd index =>
    match system.releases[index]? with
    | some release =>
      let (ctl, next) := release.step system.ctl
      ⟨ctl, system.releases.set index next⟩
    | none => system
  | .backendWaits proc =>
    { system with ctl := { system.ctl with
        syncWaitProc := some proc, latches := system.ctl.latches.filter (· ≠ proc) } }
  | .backendWakes => { system with ctl := { system.ctl with syncWaitProc := none } }

abbrev System.run : System → List Event → System := Lib.run System.step

def System.start (ctl : WalSndCtl) (recPtrs : List (SyncRepWaitMode → Nat)) : System :=
  ⟨ctl, recPtrs.map Release.start⟩

/-- The value that the compare-exchange scheduled next would replace, when it succeeds. -/
def System.replaced (system : System) : Event → Option Nat
  | .walSnd index => do
      let release ← system.releases[index]?
      let call ← release.pending.head?
      match call.pc with
      | .exchange oldVal => if system.ctl.lsn call.mode = oldVal then some oldVal else none
      | _ => none
  | _ => none

/-- The success test of the code recognises a store only when it replaces the value one. -/
def StoreRecognised (system : System) (event : Event) : Prop :=
  ∀ value, system.replaced event = some value → value = 1

end OpenGauss.Replication
