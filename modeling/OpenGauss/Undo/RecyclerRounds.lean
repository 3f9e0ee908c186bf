import OpenGauss.Undo.RecyclerSystem

namespace OpenGauss.Undo

variable {zoneCount : Nat} {system : UndoSystem} {xacts : Xacts} {globals : UndoGlobals}
  {zones : Nat → UndoZone} {round : RecycleRound} {idx : Nat}

section Frame

variable {zones' : Nat → UndoZone}

theorem GlobalsInvariant.recycles (inv : GlobalsInvariant xacts globals zones)
    (recycles : ∀ zid, ZoneRecycles (zones zid) (zones' zid)) :
    GlobalsInvariant xacts globals zones' :=
  { inv with
    frozen := fun zid => (inv.frozen zid).recycles (recycles zid)
    recycle := fun zid => (inv.recycle zid).recycles (recycles zid) }

theorem RoundInvariant.recycles (inv : RoundInvariant xacts globals zones round idx)
    (recycles : ∀ zid, ZoneRecycles (zones zid) (zones' zid)) :
    RoundInvariant xacts globals zones' round idx :=
  { inv with
    frozen := fun zid visited => (inv.frozen zid visited).recycles (recycles zid)
    recycle := fun zid visited => (inv.recycle zid visited).recycles (recycles zid) }

theorem FrozenXidFound.recycles {zone zone' : UndoZone} {oldestXmin frozenXid : Nat}
    (found : FrozenXidFound xacts globals zone oldestXmin frozenXid)
    (recycles : ZoneRecycles zone zone') :
    FrozenXidFound xacts globals zone' oldestXmin frozenXid :=
  { found with settled := found.settled.recycles recycles }

theorem zoneRecycles_update {zone : UndoZone} (recycles : ZoneRecycles (zones idx) zone) :
    ∀ zid, ZoneRecycles (zones zid) (Function.update zones idx zone zid) := by
  intro zid
  by_cases same : zid = idx
  · subst same
    rwa [Function.update_self]
  · rw [Function.update_of_ne same]
    exact ZoneRecycles.refl _

/-- A step of the recycler: the invariant stays, and slots are given up at most. -/
structure RecyclerMoves (zoneCount : Nat) (before after : UndoSystem) : Prop where
  inv : SystemInvariant zoneCount after
  xacts : after.xacts = before.xacts
  zones : ∀ zid, ZoneRecycles (before.zones zid) (after.zones zid)

theorem RecyclerMoves.refl (inv : SystemInvariant zoneCount system) :
    RecyclerMoves zoneCount system system :=
  ⟨inv, rfl, fun _ => ZoneRecycles.refl _⟩

/-- The recycler changes one zone and moves on. -/
theorem SystemInvariant.recycleZone (inv : SystemInvariant zoneCount system) {zone : UndoZone}
    (zoneInv : ZoneInvariant system.xacts zone (system.contexts idx))
    (recycles : ZoneRecycles (system.zones idx) zone) {recycler : RecyclerState}
    (recyclerInv : RecyclerInvariant system.xacts system.globals
      (Function.update system.zones idx zone) recycler) :
    RecyclerMoves zoneCount system { system.setZone idx zone with recycler := recycler } where
  xacts := rfl
  zones := zoneRecycles_update recycles
  inv := {
    calm := inv.calm
    ended := inv.ended
    zones := by
      intro zid
      by_cases same : zid = idx
      · subst same
        simpa only [UndoSystem.setZone, Function.update_self] using zoneInv
      · simpa only [UndoSystem.setZone, Function.update_of_ne same] using inv.zones zid
    outside := by
      intro zid far
      refine ⟨?_, (inv.outside zid far).2⟩
      have := (zoneRecycles_update recycles zid).allocNo
      exact this.trans (inv.outside zid far).1
    globals := inv.globals.recycles (zoneRecycles_update recycles)
    recycler := recyclerInv }

end Frame

theorem RoundInvariant.scanContext (inv : SystemInvariant zoneCount system)
    (roundInv : RoundInvariant system.xacts system.globals system.zones round idx) :
    ScanContext system.xacts system.globals (system.zones idx) (system.contexts idx) round.oldestXmin where
  inv := inv.zones idx
  frozen := inv.globals.frozen idx
  recycle := inv.globals.recycle idx
  running := roundInv.running
  frozen_le := roundInv.frozen_ge.trans roundInv.frozen_le
  valid := by
    have := roundInv.valid
    have := roundInv.xmin_le
    omega

theorem startRound_invariant (inv : SystemInvariant zoneCount system)
    {oldestXmin recycleXmin forceRecycleXid : Nat}
    (promised : system.Promised (.startRound oldestXmin recycleXmin forceRecycleXid)) :
    SystemInvariant zoneCount (system.startRound oldestXmin recycleXmin forceRecycleXid) := by
  obtain ⟨xmin_le, running⟩ := promised
  unfold UndoSystem.startRound
  split
  · split
    · exact inv
    · rename_i enters
      push Not at enters
      exact { inv with
        recycler := {
          valid := enters.1
          xmin_le := xmin_le
          running := running
          frozen_ge := enters.2
          frozen_le := le_rfl
          maxXids := by simp
          frozen := fun _ absent => absurd absent (Nat.not_lt_zero _)
          recycle := fun _ absent => absurd absent (Nat.not_lt_zero _) } }
  · exact inv

/-- A zone that needed no visit counts as visited. -/
theorem RoundInvariant.skip (roundInv : RoundInvariant xacts globals zones round idx)
    {context : UndoContext} (zoneInv : ZoneInvariant xacts (zones idx) context)
    (unused : (zones idx).used = false) :
    RoundInvariant xacts globals zones round (idx + 1) := by
  have young : ∀ number, (zones idx).recycleNo ≤ number → number < (zones idx).allocNo →
      round.oldestXmin ≤ ((zones idx).slot number).xactId :=
    fun number live inside => roundInv.running.2 _ (zoneInv.active_of_unused unused live inside)
  refine { roundInv with frozen := ?_, recycle := ?_ }
  · intro zid visited
    rcases Nat.lt_succ_iff_lt_or_eq.mp visited with before | rfl
    · exact roundInv.frozen zid before
    · exact settledBelow_of_scan zoneInv.xids.recycled fun number live inside =>
        roundInv.frozen_le.trans (young number live inside)
  · intro zid visited
    rcases Nat.lt_succ_iff_lt_or_eq.mp visited with before | rfl
    · exact roundInv.recycle zid before
    · exact fun number live inside => Or.inl (roundInv.xmin_le.trans (young number live inside))

section Visit

variable {zone : UndoZone} {context : UndoContext}

theorem ZoneInvariant.setFrozenXid (inv : ZoneInvariant xacts zone context) (xid : Nat) :
    ZoneInvariant xacts { zone with frozenXid := xid } context :=
  ⟨{ inv.pointers with }, { inv.xids with }, { inv.backend with }⟩

theorem ZoneInvariant.setFrozenSlotPtr (inv : ZoneInvariant xacts zone context) {pointer : Nat}
    (place : FrozenPlace xacts zone pointer) :
    ZoneInvariant xacts { zone with frozenSlotPtr := pointer } context := by
  have number : (pointer = 0 ∨ pointer = slotPtr (slotNo pointer)) ∧ slotNo pointer ≤ zone.allocNo ∧
      ∀ passed < slotNo pointer, Settled xacts (zone.slot passed) := by
    rcases place with rfl | ⟨number, inside, rfl, settled⟩
    · simp
    · simpa using ⟨inside, settled⟩
  exact ⟨{ inv.pointers with frozen := number.1, frozen_le := number.2.1 },
    { inv.xids with frozen := number.2.2 }, { inv.backend with }⟩

theorem enterZone_invariant (inv : SystemInvariant zoneCount system)
    (roundInv : RoundInvariant system.xacts system.globals system.zones round idx) :
    RecyclerMoves zoneCount system (system.enterZone round idx) := by
  simp only [UndoSystem.enterZone]
  split
  · obtain ⟨xid, same⟩ : ∃ xid, (if (system.zones idx).frozenXid = 0 then
        { system.zones idx with frozenXid := system.globals.globalFrozenXid }
        else system.zones idx) = { system.zones idx with frozenXid := xid } := by
      split
      · exact ⟨_, rfl⟩
      · exact ⟨(system.zones idx).frozenXid, rfl⟩
    rw [same]
    obtain ⟨current, last, scanInv⟩ := FrozenScan.start_invariant (roundInv.scanContext inv)
    have recycles : ZoneRecycles (system.zones idx) { system.zones idx with frozenXid := xid } :=
      ⟨rfl, rfl, le_rfl⟩
    refine inv.recycleZone ((inv.zones idx).setFrozenXid xid) recycles
      ⟨roundInv.recycles (zoneRecycles_update recycles), current, last, ?_⟩
    rw [Function.update_self]
    exact { scanInv with }
  · rename_i unused
    have skipped := roundInv.skip (inv.zones idx) (Bool.eq_false_iff.mpr unused)
    exact ⟨{ inv with recycler := skipped }, rfl, fun _ => ZoneRecycles.refl _⟩

theorem advancing_invariant (inv : SystemInvariant zoneCount system) {scan : FrozenScan}
    (state : system.recycler = .advancing round idx scan) :
    RecyclerMoves zoneCount system (system.recycle zoneCount) := by
  have recyclerInv := inv.recycler
  rw [state] at recyclerInv
  obtain ⟨roundInv, current, last, scanInv⟩ := recyclerInv
  have holds := roundInv.scanContext inv
  obtain ⟨xid, scan', ⟨step, next⟩ | ⟨step, found, place⟩⟩ := FrozenScan.step_cases holds scanInv
  · have recycles : ZoneRecycles (system.zones idx) { system.zones idx with frozenXid := xid } :=
      ⟨rfl, rfl, le_rfl⟩
    simp only [UndoSystem.recycle, state, step]
    refine inv.recycleZone (holds.inv.setFrozenXid xid) recycles
      ⟨roundInv.recycles (zoneRecycles_update recycles), current + 1, last, ?_⟩
    rw [Function.update_self]
    exact { next with }
  · have recycles : ZoneRecycles (system.zones idx)
        { system.zones idx with frozenXid := xid, frozenSlotPtr := scan'.oldestFrozenSlotPtr } :=
      ⟨rfl, rfl, le_rfl⟩
    simp only [UndoSystem.recycle, state, step]
    refine inv.recycleZone ((holds.inv.setFrozenXid xid).setFrozenSlotPtr place) recycles
      ⟨roundInv.recycles (zoneRecycles_update recycles), ?_⟩
    rw [Function.update_self]
    exact found.recycles recycles

/-- The round after `RecycleUndoSpace` came back. -/
theorem RoundInvariant.afterZone (roundInv : RoundInvariant xacts globals zones round idx)
    {frozenXid recycleXid : Nat}
    (found : FrozenXidFound xacts globals (zones idx) round.oldestXmin frozenXid)
    (valid : recycleXid ≠ 0)
    (live : LiveXids (zones idx) fun xid => round.recycleXmin ≤ xid ∨ recycleXid ≤ xid) :
    RoundInvariant xacts globals zones (round.afterZone frozenXid recycleXid) (idx + 1) := by
  have least : (round.afterZone frozenXid recycleXid).oldestFrozenXidInUndo =
      min frozenXid round.oldestFrozenXidInUndo := by
    simp only [RecycleRound.afterZone]
    split
    · rename_i smaller
      exact (min_eq_left smaller.le).symm
    · rename_i larger
      exact (min_eq_right (Nat.not_lt.mp larger)).symm
  have xids : (round.afterZone frozenXid recycleXid).recycleMaxXIDs =
      round.recycleMaxXIDs ++ [recycleXid] := if_pos valid
  constructor
  · exact roundInv.valid
  · exact roundInv.xmin_le
  · exact roundInv.running
  · rw [least]
    exact le_min found.frozen_ge roundInv.frozen_ge
  · rw [least]
    exact (min_le_left _ _).trans found.frozen_le
  · rw [xids]
    intro xid member
    rcases List.mem_append.mp member with before | last
    · exact roundInv.maxXids xid before
    · rw [List.mem_singleton.mp last]
      exact valid
  · intro zid visited number inside small
    rw [least, lt_min_iff] at small
    rcases Nat.lt_succ_iff_lt_or_eq.mp visited with before | rfl
    · exact roundInv.frozen zid before number inside small.2
    · exact found.settled number inside small.1
  · intro zid visited number above inside
    rw [xids]
    rcases Nat.lt_succ_iff_lt_or_eq.mp visited with before | rfl
    · rcases roundInv.recycle zid before number above inside with old | ⟨xid, member, le⟩
      · exact Or.inl old
      · exact Or.inr ⟨xid, List.mem_append_left _ member, le⟩
    · rcases live number above inside with old | le
      · exact Or.inl old
      · exact Or.inr ⟨recycleXid, by simp, le⟩

theorem recycling_invariant (inv : SystemInvariant zoneCount system) {frozenXid : Nat}
    {scan : RecycleScan} (state : system.recycler = .recycling round idx frozenXid scan) :
    RecyclerMoves zoneCount system (system.recycle zoneCount) := by
  have recyclerInv := inv.recycler
  rw [state] at recyclerInv
  obtain ⟨roundInv, found, current, last, scanInv⟩ := recyclerInv
  have holds := roundInv.scanContext inv
  have ok := RecycleScan.step_ok holds found.settled roundInv.xmin_le scanInv
    (system.contexts idx).phase.locked
  simp only [UndoSystem.recycle, state]
  cases step : scan.step (round.xids frozenXid) system.xacts system.globals
      (system.contexts idx).phase.locked (system.zones idx) with
  | panic =>
    rw [step] at ok
    cases ok
  | goOn zone' scan' =>
    rw [step] at ok
    obtain ⟨zoneInv, recycles, current', next⟩ := ok
    refine inv.recycleZone zoneInv recycles
      ⟨roundInv.recycles (zoneRecycles_update recycles), ?_, current', last, ?_⟩
    · rw [Function.update_self]
      exact found.recycles recycles
    · rwa [Function.update_self]
  | finished zone' scan' =>
    rw [step] at ok
    obtain ⟨rfl, valid, live⟩ := ok
    refine inv.recycleZone holds.inv (ZoneRecycles.refl _) ?_
    rw [Function.update_eq_self]
    exact roundInv.afterZone found valid live

theorem recycle_invariant (inv : SystemInvariant zoneCount system) :
    RecyclerMoves zoneCount system (system.recycle zoneCount) := by
  have recyclerInv := inv.recycler
  cases state : system.recycler with
  | idle =>
    simp only [UndoSystem.recycle, state]
    exact RecyclerMoves.refl inv
  | zoneLoop round idx =>
    rw [state] at recyclerInv
    simp only [UndoSystem.recycle, state]
    split
    · exact enterZone_invariant inv recyclerInv
    · exact RecyclerMoves.refl inv
  | advancing round idx scan => exact advancing_invariant inv state
  | entering round idx frozenXid =>
    rw [state] at recyclerInv
    obtain ⟨roundInv, found⟩ := recyclerInv
    simp only [UndoSystem.recycle, state]
    have begun : RecycleScanInvariant system.xacts (system.zones idx) round.oldestXmin
        (round.xids frozenXid) _ _ _ :=
      RecycleScan.begin_invariant (inv.zones idx) roundInv.valid found.valid
    exact ⟨{ inv with recycler := ⟨roundInv, found, _, _, begun⟩ }, rfl, fun _ => ZoneRecycles.refl _⟩
  | recycling round idx frozenXid scan => exact recycling_invariant inv state

end Visit

section Publish

private theorem foldl_oldest_le {xids : List Nat} (valid : ∀ xid ∈ xids, xid ≠ 0) (oldest : Nat) :
    let least := xids.foldl
      (fun oldest xid => if oldest = 0 then xid else if xid < oldest then xid else oldest) oldest
    (oldest ≠ 0 → least ≤ oldest) ∧ ∀ xid ∈ xids, least ≤ xid := by
  induction xids generalizing oldest with
  | nil => simp
  | cons head rest ih =>
    have first := valid head (by simp)
    obtain ⟨below, others⟩ := ih (fun xid member => valid xid (by simp [member]))
      (if oldest = 0 then head else if head < oldest then head else oldest)
    have next : (if oldest = 0 then head else if head < oldest then head else oldest) ≠ 0 ∧
        (if oldest = 0 then head else if head < oldest then head else oldest) ≤ head ∧
        (oldest ≠ 0 → (if oldest = 0 then head else if head < oldest then head else oldest) ≤
          oldest) := by
      split_ifs <;> omega
    have small := below next.1
    refine ⟨fun present => small.trans (next.2.2 present), ?_⟩
    intro xid member
    rcases List.mem_cons.mp member with rfl | later
    · exact small.trans next.2.1
    · exact others xid later

/-- Nothing the round left in a zone is below the xid it arrives at. -/
theorem updateXidHavingUndo_le {recycleMaxXIDs : List Nat} {oldestXidHavingUndo recycleXmin xid : Nat}
    (valid : ∀ xid ∈ recycleMaxXIDs, xid ≠ 0)
    (live : recycleXmin ≤ xid ∨ ∃ recycled ∈ recycleMaxXIDs, recycled ≤ xid) :
    min recycleXmin (updateXidHavingUndo recycleMaxXIDs oldestXidHavingUndo recycleXmin) ≤ xid := by
  unfold updateXidHavingUndo
  rcases live with old | ⟨recycled, member, le⟩
  · exact (min_le_left _ _).trans old
  · rw [if_neg (List.ne_nil_of_mem member)]
    exact (min_le_right _ _).trans (((foldl_oldest_le valid oldestXidHavingUndo).2 recycled member).trans le)

section

variable (inv : SystemInvariant zoneCount system)
  (roundInv : RoundInvariant system.xacts system.globals system.zones round idx)
  (whole : zoneCount ≤ idx)

include inv roundInv whole

/-- After a whole pass the round's results hold of every zone. -/
theorem RoundInvariant.complete (zid : Nat) :
    SettledBelow system.xacts (system.zones zid) round.oldestFrozenXidInUndo ∧
      LiveXids (system.zones zid) fun xid =>
        round.recycleXmin ≤ xid ∨ ∃ recycled ∈ round.recycleMaxXIDs, recycled ≤ xid := by
  rcases Nat.lt_or_ge zid idx with visited | far
  · exact ⟨roundInv.frozen zid visited, roundInv.recycle zid visited⟩
  · have absent := (inv.outside zid (whole.trans far)).1
    constructor
    · intro number inside
      omega
    · intro number _ inside
      omega

/-- Publishing the frozen xid of a whole pass. -/
theorem RoundInvariant.publishFrozen {globals : UndoGlobals}
    (published : globals = if round.isAnyZoneUsed then
      { system.globals with globalFrozenXid := round.oldestFrozenXidInUndo } else system.globals) :
    GlobalsInvariant system.xacts globals system.zones ∧
      system.globals.globalFrozenXid ≤ globals.globalFrozenXid ∧
      globals.globalFrozenXid ≤ round.oldestFrozenXidInUndo ∧
      globals.globalRecycleXid = system.globals.globalRecycleXid := by
  subst published
  split
  · exact ⟨{ inv.globals with
      frozen := fun zid => (roundInv.complete inv whole zid).1
      frozen_running := roundInv.running.mono roundInv.frozen_le },
      roundInv.frozen_ge, le_rfl, rfl⟩
  · exact ⟨inv.globals, le_rfl, roundInv.frozen_ge, rfl⟩

end

theorem finishPass_invariant (inv : SystemInvariant zoneCount system) (retry : Option Nat) :
    SystemInvariant zoneCount (system.finishPass zoneCount retry) ∧ system.globals.globalFrozenXid ≤
        (system.finishPass zoneCount retry).globals.globalFrozenXid ∧
      system.globals.globalRecycleXid ≤ (system.finishPass zoneCount retry).globals.globalRecycleXid := by
  have recyclerInv := inv.recycler
  cases state : system.recycler with
  | zoneLoop round idx =>
    rw [state] at recyclerInv
    have roundInv : RoundInvariant system.xacts system.globals system.zones round idx := recyclerInv
    simp only [UndoSystem.finishPass, state]
    split
    · exact ⟨inv, le_rfl, le_rfl⟩
    rename_i done
    obtain ⟨globalsInv, frozenGrows, frozenLe, sameRecycle⟩ :=
      roundInv.publishFrozen inv (Nat.not_lt.mp done) rfl
    generalize (if round.isAnyZoneUsed then
      { system.globals with globalFrozenXid := round.oldestFrozenXidInUndo }
      else system.globals) = globals at *
    cases retry with
    | some forceRecycleXid =>
      refine ⟨{ inv with
        globals := globalsInv
        recycler := { roundInv with
          frozen_ge := frozenLe
          maxXids := by simp
          frozen := fun _ absent => absurd absent (Nat.not_lt_zero _)
          recycle := fun _ absent => absurd absent (Nat.not_lt_zero _) } },
        frozenGrows, sameRecycle.ge⟩
    | none =>
      have least : ∀ zid, LiveXids (system.zones zid)
          (min round.recycleXmin (updateXidHavingUndo round.recycleMaxXIDs
            round.oldestXidHavingUndo round.recycleXmin) ≤ ·) := by
        intro zid number above inside
        exact updateXidHavingUndo_le roundInv.maxXids
          ((roundInv.complete inv (Nat.not_lt.mp done) zid).2 number above inside)
      have capped : ∀ xid, (if round.recycleXmin < xid then round.recycleXmin else xid) =
          min round.recycleXmin xid := by
        intro xid
        split <;> omega
      simp only [capped]
      split
      · rename_i publishes
        refine ⟨{ inv with
          globals := { globalsInv with
            recycle := least
            recycle_running := roundInv.running.mono
              ((min_le_left _ _).trans roundInv.xmin_le) }
          recycler := trivial }, frozenGrows, ?_⟩
        exact sameRecycle.ge.trans publishes.2.le
      · exact ⟨{ inv with globals := globalsInv, recycler := trivial }, frozenGrows, sameRecycle.ge⟩
  | idle | advancing | entering | recycling =>
    simp only [UndoSystem.finishPass, state]
    exact ⟨inv, le_rfl, le_rfl⟩

theorem restartRecycler_invariant (inv : SystemInvariant zoneCount system) :
    SystemInvariant zoneCount system.restartRecycler := by
  unfold UndoSystem.restartRecycler
  refine { inv with globals := ?_, recycler := trivial }
  dsimp only
  split
  · exact { inv.globals with
      frozen := fun zid => settledBelow_of_scan (inv.zones zid).xids.recycled (inv.globals.recycle zid)
      frozen_running := inv.globals.recycle_running }
  · exact inv.globals

end Publish

end OpenGauss.Undo
