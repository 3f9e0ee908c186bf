import OpenGauss.Undo.RecycleScan
import OpenGauss.Undo.UndoSystem

namespace OpenGauss.Undo

structure SystemInvariant (zoneCount : Nat) (system : UndoSystem) : Prop where
  calm : system.panicked = false
  ended : ∀ xid, system.xacts.status xid ≠ .inProgress → firstNormalTransactionId ≤ xid
  zones : ∀ zid, ZoneInvariant system.xacts (system.zones zid) (system.contexts zid)
  outside : ∀ zid, zoneCount ≤ zid → (system.zones zid).allocNo = 0 ∧ (system.contexts zid).phase = .ready
  globals : GlobalsInvariant system.xacts system.globals system.zones
  recycler : RecyclerInvariant system.xacts system.globals system.zones system.recycler

variable {zoneCount : Nat} {system : UndoSystem}

private theorem initial_counts : ({} : UndoZone).allocNo = 0 ∧ ({} : UndoZone).recycleNo = 0 ∧
    ({} : UndoZone).frozenNo = 0 := by decide

theorem ZoneInvariant.initial (xacts : Xacts) : ZoneInvariant xacts {} {} where
  pointers := {
    allocate := rfl
    recycle := rfl
    recycle_le := le_rfl
    frozen := Or.inl rfl
    frozen_le := le_rfl
    fresh := fun _ _ => rfl
    tiles := Lib.Tiles.nil _ _ _ _
    closedEnd_le := le_rfl
    discard_le := le_rfl
    header_le := le_rfl
    insert_usable := by decide
    undoTail := Or.inr ⟨rfl, rfl⟩
    undoTail_segment := rfl
    undoTail_le := Nat.zero_le _
    undoHead_segment := rfl
    undoHead_le := Nat.zero_le _
    slotTail := Or.inr rfl
    slotTail_segment := rfl
    slotTail_le := Nat.zero_le _
    slotHead_segment := rfl
    slotHead_le := Nat.zero_le _ }
  xids := by
    obtain ⟨allocated, recycled, frozen⟩ := initial_counts
    constructor <;> simp [allocated, recycled, frozen]
  backend := by
    constructor <;> simp [UndoPhase.xid?]

theorem SystemInvariant.initial (zoneCount : Nat) : SystemInvariant zoneCount {} where
  calm := rfl
  ended := fun _ running => absurd rfl running
  zones := fun _ => ZoneInvariant.initial _
  outside := fun _ _ => ⟨initial_counts.1, rfl⟩
  globals := {
    frozen := fun _ _ inside => absurd (initial_counts.1 ▸ inside) (Nat.not_lt_zero _)
    recycle := fun _ _ _ inside => absurd (initial_counts.1 ▸ inside) (Nat.not_lt_zero _)
    frozen_running := ⟨Nat.zero_le _, fun _ _ => Nat.zero_le _⟩
    recycle_running := ⟨Nat.zero_le _, fun _ _ => Nat.zero_le _⟩ }
  recycler := trivial

section Grow

theorem XactsGrow.refl (xacts : Xacts) : XactsGrow xacts xacts :=
  ⟨le_rfl, fun _ _ => rfl, fun _ active => Or.inl active⟩

section

variable (inv : SystemInvariant zoneCount system)

include inv

/-- Transactions and backends leave everything the recycler knows as it is. -/
theorem SystemInvariant.grow {xacts : Xacts}
    {zones : Nat → UndoZone} {contexts : Nat → UndoContext} (xactsGrow : XactsGrow system.xacts xacts)
    (ended : ∀ xid, xacts.status xid ≠ .inProgress → firstNormalTransactionId ≤ xid)
    (zonesGrow : ∀ zid, ZoneGrows system.xacts xacts (system.zones zid) (zones zid))
    (zonesInv : ∀ zid, ZoneInvariant xacts (zones zid) (contexts zid))
    (outside : ∀ zid, zoneCount ≤ zid → (zones zid).allocNo = 0 ∧ (contexts zid).phase = .ready) :
    SystemInvariant zoneCount { system with xacts := xacts, zones := zones, contexts := contexts } where
  calm := inv.calm
  ended := ended
  zones := zonesInv
  outside := outside
  globals := inv.globals.grow xactsGrow zonesGrow
  recycler := inv.recycler.grow xactsGrow zonesGrow

variable {zid : Nat} {zone : UndoZone} {context : UndoContext}

/-- An event that changes nothing but one zone and its backend. -/
theorem SystemInvariant.growZone (inside : zid < zoneCount)
    (zoneInv : ZoneInvariant system.xacts zone context)
    (grows : ZoneGrows system.xacts system.xacts (system.zones zid) zone) :
    SystemInvariant zoneCount ((system.setZone zid zone).setContext zid context) := by
  refine inv.grow (XactsGrow.refl _) inv.ended ?_ ?_ ?_
  · intro other
    by_cases same : other = zid
    · subst same
      simpa only [UndoSystem.setZone, Function.update_self] using grows
    · simp only [UndoSystem.setZone, Function.update_of_ne same]
      exact ZoneGrows.refl _ _
  · intro other
    by_cases same : other = zid
    · subst same
      simpa only [UndoSystem.setZone, Function.update_self] using zoneInv
    · simpa only [UndoSystem.setZone, Function.update_of_ne same] using inv.zones other
  · intro other far
    have same : other ≠ zid := by omega
    simpa only [UndoSystem.setZone, Function.update_of_ne same] using inv.outside other far

theorem SystemInvariant.setContext (inside : zid < zoneCount)
    (zoneInv : ZoneInvariant system.xacts (system.zones zid) context) :
    SystemInvariant zoneCount (system.setContext zid context) := by
  have := inv.growZone inside zoneInv (ZoneGrows.refl _ _)
  rwa [UndoSystem.setZone, Function.update_eq_self] at this

theorem SystemInvariant.setZone (inside : zid < zoneCount)
    (zoneInv : ZoneInvariant system.xacts zone (system.contexts zid))
    (grows : ZoneGrows system.xacts system.xacts (system.zones zid) zone) :
    SystemInvariant zoneCount (system.setZone zid zone) := by
  have := inv.growZone inside zoneInv grows
  rwa [UndoSystem.setContext, UndoSystem.setZone, Function.update_eq_self] at this

end

end Grow

section Transactions

section

variable (inv : SystemInvariant zoneCount system)

include inv

theorem beginTransaction_invariant : SystemInvariant zoneCount system.beginTransaction := by
  have grows : XactsGrow system.xacts { system.xacts with nextXid := system.xacts.nextXid + 1 } := by
    refine ⟨Nat.le_succ _, fun _ _ => rfl, ?_⟩
    rintro xid ⟨normal, begun, running⟩
    rcases Nat.lt_succ_iff_lt_or_eq.mp begun with before | new
    · exact Or.inl ⟨normal, before, running⟩
    · exact Or.inr new.ge
  refine inv.grow grows inv.ended (fun zid => grows.zoneGrows _) ?_ inv.outside
  intro zid
  refine (inv.zones zid).xactsGrow grows ?_
  intro xid flying
  obtain ⟨normal, begun, running⟩ := (inv.zones zid).backend.inFlight xid flying
  exact ⟨normal, Nat.lt_succ_of_lt begun, running⟩

theorem endTransaction_invariant (xid : Nat)
    (status : XidStatus) : SystemInvariant zoneCount (system.endTransaction zoneCount xid status) := by
  unfold UndoSystem.endTransaction
  split
  swap
  · exact inv
  rename_i mayEnd
  obtain ⟨active, idle⟩ := mayEnd
  have grows : XactsGrow system.xacts
      { system.xacts with status := Function.update system.xacts.status xid status } := by
    refine ⟨le_rfl, ?_, ?_⟩
    · intro other done
      have different : other ≠ xid := by
        rintro rfl
        exact done active.2.2
      exact Function.update_of_ne different _ _
    · rintro other ⟨normal, begun, running⟩
      by_cases same : other = xid
      · exact Or.inl (same ▸ active)
      · exact Or.inl ⟨normal, begun, (Function.update_of_ne same _ _).symm.trans running⟩
  refine inv.grow grows ?_ (fun zid => grows.zoneGrows _) ?_ inv.outside
  · intro other done
    by_cases same : other = xid
    · exact same ▸ active.1
    · exact inv.ended other (by rwa [← Function.update_of_ne same status system.xacts.status])
  · intro zid
    refine (inv.zones zid).xactsGrow grows ?_
    intro other flying
    have different : other ≠ xid := by
      rintro rfl
      rcases Nat.lt_or_ge zid zoneCount with inside | far
      · exact idle zid inside flying
      · simp [(inv.outside zid far).2, UndoPhase.xid?] at flying
    obtain ⟨normal, begun, running⟩ := (inv.zones zid).backend.inFlight other flying
    exact ⟨normal, begun, (Function.update_of_ne different _ _).trans running⟩

/-- Only a slot that was allocated has an aborted transaction. -/
theorem SystemInvariant.allocated_of_aborted {zid pointer : Nat}
    (aborted : system.xacts.status ((system.zones zid).slots pointer).xactId = .aborted) :
    ∃ number < (system.zones zid).allocNo, pointer = slotPtr number := by
  by_contra absent
  push Not at absent
  rw [(inv.zones zid).pointers.fresh pointer absent] at aborted
  have := inv.ended 0 (by simp [aborted])
  simp [firstNormalTransactionId] at this

theorem updateRollbackFinish_invariant {zid : Nat} (inside : zid < zoneCount) (pointer : Nat) :
    SystemInvariant zoneCount (system.updateRollbackFinish zid pointer) := by
  simp only [UndoSystem.updateRollbackFinish]
  split
  · exact inv
  rename_i guards
  push Not at guards
  obtain ⟨aborted, needed⟩ := guards
  have zoneInv := inv.zones zid
  obtain ⟨number, allocated, rfl⟩ := inv.allocated_of_aborted aborted
  have live : (system.zones zid).recycleNo ≤ number := by
    by_contra recycled
    rcases zoneInv.xids.recycled number (by omega) with committed | ⟨-, finished⟩
    · rw [UndoZone.slot, aborted] at committed
      cases committed
    · exact needed (congrArg not finished)
  have above : system.globals.globalRecycleXid ≤ ((system.zones zid).slots (slotPtr number)).xactId :=
    inv.globals.recycle zid number live allocated
  rw [if_neg (Nat.not_lt.mpr above)]
  obtain ⟨updated, grows⟩ := updateRollbackProgress_invariant zoneInv allocated aborted
  exact inv.setZone inside updated grows

end

end Transactions

section Backends

section

variable (inv : SystemInvariant zoneCount system) {zid : Nat} (inside : zid < zoneCount)

include inv inside

theorem prepareUndoRecord_systemInvariant (request : UndoRequest) :
    SystemInvariant zoneCount (system.prepareUndoRecord zid request) := by
  simp only [UndoSystem.prepareUndoRecord]
  split
  · rename_i enabled
    obtain ⟨ready, active, present, positive⟩ := enabled
    obtain ⟨zoneInv, grows⟩ :=
      prepareUndoRecord_invariant (inv.zones zid) ready active present positive
    exact inv.growZone inside zoneInv grows
  · exact inv

theorem undoMetaStep_systemInvariant (promised : system.Promised (.undoMetaStep zid)) :
    SystemInvariant zoneCount (system.undoMetaStep zid) := by
  obtain ⟨result, done, zoneInv, grows⟩ := undoMetaStep_invariant (inv.zones zid) promised
  simp only [UndoSystem.undoMetaStep, done]
  exact inv.growZone inside zoneInv grows

theorem abandonUndoRecord_invariant : SystemInvariant zoneCount (system.abandonUndoRecord zid) := by
  unfold UndoSystem.abandonUndoRecord
  split
  · rename_i pending phase
    refine inv.setContext inside ((inv.zones zid).setContext ?_ rfl (Or.inr ⟨rfl, rfl, rfl⟩))
    simp [UndoZone.closedNo, UndoZone.closedEnd, phase]
  · exact inv

theorem resetUndoActionsInfo_invariant : SystemInvariant zoneCount (system.resetUndoActionsInfo zid) := by
  unfold UndoSystem.resetUndoActionsInfo
  split
  · rename_i ready
    refine inv.setContext inside ((inv.zones zid).setContext ?_ ready (Or.inl rfl))
    simp [UndoZone.closedNo, UndoZone.closedEnd]
  · exact inv

theorem attachZone_invariant : SystemInvariant zoneCount (system.attachZone zid) := by
  unfold UndoSystem.attachZone
  split
  · rename_i ready
    refine inv.setContext inside ((inv.zones zid).setContext ?_ rfl (Or.inl rfl))
    simp [UndoZone.closedNo, UndoZone.closedEnd, ready]
  · exact inv

end

end Backends

end OpenGauss.Undo
