import OpenGauss.Lib.Run
import OpenGauss.Undo.ZoneInvariant

/-! Transactions, the backends that write undo, and the recycler, interleaved in any order. An
event that the code could not perform in the given state leaves the state unchanged. -/

namespace OpenGauss.Undo

structure UndoSystem where
  xacts : Xacts := {}
  zones : Nat → UndoZone := fun _ => {}
  contexts : Nat → UndoContext := fun _ => {}
  globals : UndoGlobals := {}
  recycler : RecyclerState := .idle
  panicked : Bool := false

inductive UndoEvent where
  | beginTransaction
  | commitTransaction (xid : Nat)
  | abortTransaction (xid : Nat)
  | updateRollbackFinish (zid slotPtr : Nat)
  | prepareUndoRecord (zid : Nat) (request : UndoRequest)
  | undoMetaStep (zid : Nat)
  | abandonUndoRecord (zid : Nat)
  | resetUndoActionsInfo (zid : Nat)
  | attachZone (zid : Nat)
  | startRound (oldestXmin recycleXmin forceRecycleXid : Nat)
  | recycle
  | finishPass (retry : Option Nat)
  | restartRecycler
  deriving DecidableEq, Repr

namespace UndoSystem

variable (system : UndoSystem)

def setZone (zid : Nat) (zone : UndoZone) : UndoSystem :=
  { system with zones := Function.update system.zones zid zone }

def setContext (zid : Nat) (context : UndoContext) : UndoSystem :=
  { system with contexts := Function.update system.contexts zid context }

variable (zoneCount : Nat)

/-- A transaction does not end while one of its undo records is on its way into a zone. -/
def MayEnd (system : UndoSystem) (xid : Nat) : Prop :=
  system.xacts.Active xid ∧ ∀ zid < zoneCount, (system.contexts zid).phase.xid? ≠ some xid

instance (zoneCount : Nat) (system : UndoSystem) (xid : Nat) : Decidable (MayEnd zoneCount system xid) :=
  inferInstanceAs (Decidable (_ ∧ _))

def beginTransaction : UndoSystem :=
  { system with xacts := { system.xacts with nextXid := system.xacts.nextXid + 1 } }

def endTransaction (system : UndoSystem) (xid : Nat) (status : XidStatus) : UndoSystem :=
  if MayEnd zoneCount system xid then
    { system with
      xacts := { system.xacts with status := Function.update system.xacts.status xid status } }
  else system

/-- Rollback is completed only for transactions that have aborted. -/
def updateRollbackFinish (zid slotPtr : Nat) : UndoSystem :=
  let zone := system.zones zid
  let slot := zone.slots slotPtr
  if system.xacts.status slot.xactId ≠ .aborted ∨ slot.needRollback = false then system
  else if slot.xactId < system.globals.globalRecycleXid then { system with panicked := true }
  else system.setZone zid
    { zone with slots := Function.update zone.slots slotPtr slot.updateRollbackProgress }

/-- A running transaction asks for undo space of at least one nonempty record. -/
def prepareUndoRecord (system : UndoSystem) (zid : Nat) (request : UndoRequest) : UndoSystem :=
  let context := system.contexts zid
  if context.phase = .ready ∧ system.xacts.Active request.xid ∧ request.sizes ≠ [] ∧
      ∀ size ∈ request.sizes, 0 < size then
    let result := Undo.prepareUndoRecord (system.zones zid) context request
    (system.setZone zid result.1).setContext zid result.2
  else system

def undoMetaStep (system : UndoSystem) (zid : Nat) : UndoSystem :=
  match Undo.undoMetaStep (system.zones zid) (system.contexts zid) with
  | none => { system with panicked := true }
  | some result => (system.setZone zid result.1).setContext zid result.2

def abandonUndoRecord (zid : Nat) : UndoSystem :=
  match (system.contexts zid).phase with
  | .allocated _ => system.setContext zid { system.contexts zid with phase := .ready }
  | _ => system

def resetUndoActionsInfo (zid : Nat) : UndoSystem :=
  if (system.contexts zid).phase = .ready then
    system.setContext zid
      { system.contexts zid with prevXid := 0, slotPtr := 0, slot := 0, transUndoSize := 0 }
  else system

def attachZone (zid : Nat) : UndoSystem :=
  if (system.contexts zid).phase = .ready then system.setContext zid {} else system

def startRound (oldestXmin recycleXmin forceRecycleXid : Nat) : UndoSystem :=
  match system.recycler with
  | .idle =>
    if recycleXmin = 0 ∨ oldestXmin < system.globals.globalFrozenXid then system
    else
      { system with
        recycler := .zoneLoop
          { oldestXmin, recycleXmin, forceRecycleXid, oldestFrozenXidInUndo := oldestXmin } 0 }
  | _ => system

def enterZone (round : RecycleRound) (idx : Nat) : UndoSystem :=
  let zone := system.zones idx
  if zone.used then
    let zone :=
      if zone.frozenXid = 0 then { zone with frozenXid := system.globals.globalFrozenXid } else zone
    { system.setZone idx zone with
      recycler := .advancing round idx (FrozenScan.start zone round.oldestXmin) }
  else { system with recycler := .zoneLoop round (idx + 1) }

def recycle (system : UndoSystem) : UndoSystem :=
  match system.recycler with
  | .idle => system
  | .zoneLoop round idx => if idx < zoneCount then system.enterZone round idx else system
  | .advancing round idx scan =>
    match scan.step system.xacts system.globals round.oldestXmin (system.zones idx) with
    | .panic => { system with panicked := true }
    | .goOn zone scan =>
      { system.setZone idx zone with recycler := .advancing round idx scan }
    | .finished zone scan =>
      { system.setZone idx { zone with frozenSlotPtr := scan.oldestFrozenSlotPtr } with
        recycler := .entering round idx scan.frozenXid }
  | .entering round idx frozenXid =>
    { system with
      recycler := .recycling round idx frozenXid
        (RecycleScan.begin (system.zones idx) (round.xids frozenXid)) }
  | .recycling round idx frozenXid scan =>
    match scan.step (round.xids frozenXid) system.xacts system.globals
        (system.contexts idx).phase.locked (system.zones idx) with
    | .panic => { system with panicked := true }
    | .goOn zone scan =>
      { system.setZone idx zone with recycler := .recycling round idx frozenXid scan }
    | .finished zone scan =>
      { system.setZone idx zone with
        recycler := .zoneLoop (round.afterZone frozenXid scan.oldestRecycleXid) (idx + 1) }

/-- The end of a pass over all zones: publish the frozen xid, then retry with a forced xid or
publish the recycle xid. -/
def finishPass (system : UndoSystem) (retry : Option Nat) : UndoSystem :=
  match system.recycler with
  | .zoneLoop round idx =>
    if idx < zoneCount then system
    else
      let globals :=
        if round.isAnyZoneUsed then
          { system.globals with globalFrozenXid := round.oldestFrozenXidInUndo }
        else system.globals
      let oldestXidHavingUndo :=
        updateXidHavingUndo round.recycleMaxXIDs round.oldestXidHavingUndo round.recycleXmin
      match retry with
      | some forceRecycleXid =>
        { system with
          globals := globals
          recycler := .zoneLoop
            { round with
              oldestXidHavingUndo := oldestXidHavingUndo
              forceRecycleXid := forceRecycleXid
              recycleMaxXIDs := []
              isAnyZoneUsed := false } 0 }
      | none =>
        let oldestXidHavingUndo :=
          if round.recycleXmin < oldestXidHavingUndo then round.recycleXmin
          else oldestXidHavingUndo
        { system with
          globals :=
            if oldestXidHavingUndo ≠ 0 ∧ globals.globalRecycleXid < oldestXidHavingUndo then
              { globals with globalRecycleXid := oldestXidHavingUndo }
            else globals
          recycler := .idle }
  | _ => system

/-- An error or a shutdown ends the round; the thread starts over. -/
def restartRecycler : UndoSystem :=
  { system with
    globals :=
      if system.globals.globalFrozenXid = 0 then
        { system.globals with globalFrozenXid := system.globals.globalRecycleXid }
      else system.globals
    recycler := .idle }

def onZone (system : UndoSystem) (zid : Nat)
    (action : UndoSystem → Nat → UndoSystem) : UndoSystem :=
  if zid < zoneCount then action system zid else system

def act (system : UndoSystem) : UndoEvent → UndoSystem
  | .beginTransaction => system.beginTransaction
  | .commitTransaction xid => system.endTransaction zoneCount xid .committed
  | .abortTransaction xid => system.endTransaction zoneCount xid .aborted
  | .updateRollbackFinish zid slotPtr =>
    system.onZone zoneCount zid fun system zid => system.updateRollbackFinish zid slotPtr
  | .prepareUndoRecord zid request =>
    system.onZone zoneCount zid fun system zid => system.prepareUndoRecord zid request
  | .undoMetaStep zid => system.onZone zoneCount zid undoMetaStep
  | .abandonUndoRecord zid => system.onZone zoneCount zid abandonUndoRecord
  | .resetUndoActionsInfo zid => system.onZone zoneCount zid resetUndoActionsInfo
  | .attachZone zid => system.onZone zoneCount zid attachZone
  | .startRound oldestXmin recycleXmin forceRecycleXid =>
    system.startRound oldestXmin recycleXmin forceRecycleXid
  | .recycle => system.recycle zoneCount
  | .finishPass retry => system.finishPass zoneCount retry
  | .restartRecycler => system.restartRecycler

def step (system : UndoSystem) (event : UndoEvent) : UndoSystem :=
  if system.panicked then system else system.act zoneCount event

/-- What the zone assignment and the snapshots promise: a slot's transaction is younger than those
of the slots before it, and a round's xmins are not above any running or later transaction. -/
def Promised : UndoEvent → Prop
  | .undoMetaStep zid =>
    ∀ pending, (system.contexts zid).phase = .metaPrepared pending →
      pending.xid ≠ (system.contexts zid).prevXid →
      ∀ slotPtr, ((system.zones zid).slots slotPtr).xactId < pending.xid
  | .startRound oldestXmin recycleXmin _ =>
    recycleXmin ≤ oldestXmin ∧ oldestXmin ≤ system.xacts.nextXid ∧
      ∀ xid, system.xacts.Active xid → oldestXmin ≤ xid
  | _ => True

end UndoSystem

end OpenGauss.Undo
