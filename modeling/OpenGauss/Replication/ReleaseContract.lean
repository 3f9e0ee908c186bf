import OpenGauss.Replication.ReleaseSystem

namespace OpenGauss.Replication

/-- Calls that returned are finished, and `updateResult` collects their reports. -/
structure Release.Settled (release : Release) : Prop where
  finished : ∀ call ∈ release.returned, call.pc = .returned
  collected : release.updateResult = release.calls.any (·.result)

theorem Release.Settled.step {release : Release} (settled : release.Settled) (ctl : WalSndCtl) :
    (release.step ctl).2.Settled := by
  cases running : release.pending with
  | nil =>
    obtain ⟨-, sameCalls, sameResult⟩ := Release.step_idle ctl running
    refine ⟨?_, by rw [sameCalls, sameResult, settled.collected]⟩
    simp only [Release.step, running]
    split <;> exact settled.finished
  | cons call rest =>
    obtain ⟨-, nextCalls, nextResult⟩ := Release.step_running ctl running
    refine ⟨?_, ?_⟩
    · simp only [Release.step, running]
      split
      · rename_i returned
        intro other member
        rcases List.mem_append.mp member with old | new
        · exact settled.finished other old
        · rw [List.mem_singleton.mp new]
          exact returned
      · exact settled.finished
    · have keeps := call.step_result (ctl.lsn call.mode)
      rw [nextCalls, nextResult, settled.collected]
      simp only [Release.calls, running, List.any_append, List.any_cons]
      cases reported : call.result with
      | false => simp [Bool.or_comm, Bool.or_assoc]
      | true => simp [keeps reported]

/-- Steps a release still needs when it runs alone. -/
def Release.remaining (ctl : WalSndCtl) (release : Release) : Nat :=
  match release.pending with
  | [] => if release.left then 0 else 1
  | call :: rest => call.remaining (ctl.lsn call.mode) + 4 * rest.length + 1

theorem Release.remaining_le (ctl : WalSndCtl) (release : Release) :
    release.remaining ctl ≤ 4 * release.pending.length + 1 := by
  unfold Release.remaining
  split
  · split <;> omega
  · rename_i call rest running
    have := call.remaining_le (ctl.lsn call.mode)
    simp [running]
    omega

def Release.Done (release : Release) : Prop := release.pending = [] ∧ release.left = true

theorem Release.Done.step {release : Release} (done : release.Done) (ctl : WalSndCtl) :
    release.step ctl = (ctl, release) := by
  simp [Release.step, done.1, done.2]

theorem Release.step_remaining {release : Release} (running : ¬ release.Done) (ctl : WalSndCtl) :
    (release.step ctl).2.remaining (release.step ctl).1 < release.remaining ctl := by
  cases pending : release.pending with
  | nil =>
    have staying : release.left = false := by simpa [Release.Done, pending] using running
    simp [Release.step, Release.remaining, pending, staying]
  | cons call rest =>
    simp only [Release.step, pending]
    split
    · have bound := Release.remaining_le (ctl.setLsn call.mode (call.step (ctl.lsn call.mode)).1)
        { release with
          returned := release.returned ++ [(call.step (ctl.lsn call.mode)).2]
          pending := rest
          updateResult := release.updateResult || (call.step (ctl.lsn call.mode)).2.result }
      have positive := call.remaining_pos (ctl.lsn call.mode)
      simp only [Release.remaining, pending] at bound ⊢
      omega
    · rename_i unfinished
      have lower := call.step_remaining (ctl.lsn call.mode) unfinished
      simpa [Release.remaining, pending, WalSndCtl.setLsn] using lower

namespace System

variable {system : System}

variable {index : Nat} {release : Release}

theorem step_walSnd (found : system.releases[index]? = some release) :
    (system.step (.walSnd index)).ctl = (release.step system.ctl).1 ∧
      (system.step (.walSnd index)).releases[index]? = some (release.step system.ctl).2 := by
  have inside : index < system.releases.length := (List.getElem?_eq_some_iff.mp found).1
  simp only [System.step, found]
  simp [inside]

theorem step_settled (settled : ∀ release ∈ system.releases, release.Settled) (event : Event) :
    ∀ release ∈ (system.step event).releases, release.Settled := by
  cases event with
  | backendWaits proc => exact settled
  | backendWakes => exact settled
  | walSnd index =>
    cases found : system.releases[index]? with
    | none => simpa [System.step, found] using settled
    | some release =>
      intro other member
      simp only [System.step, found] at member
      rcases List.mem_or_eq_of_mem_set member with old | rfl
      · exact settled other old
      · exact (settled release (List.mem_of_getElem? found)).step system.ctl

theorem run_settled (settled : ∀ release ∈ system.releases, release.Settled)
    (events : List Event) : ∀ release ∈ (system.run events).releases, release.Settled :=
  Lib.run_invariant (fun current : System => ∀ release ∈ current.releases, release.Settled)
    (fun _ event held => step_settled held event) settled events

theorem step_length (system : System) (event : Event) :
    (system.step event).releases.length = system.releases.length := by
  cases event with
  | walSnd index =>
    simp only [System.step]
    split <;> simp
  | _ => rfl

/-- Left alone, a release is done after four steps for each call it still has to make. -/
theorem run_alone_done (found : system.releases[index]? = some release) :
    ∃ finished, (system.run (List.replicate (4 * release.pending.length + 1)
      (.walSnd index))).releases[index]? = some finished ∧ finished.Done := by
  have inside : index < system.releases.length := (List.getElem?_eq_some_iff.mp found).1
  have allDone : ∀ finished, (system.run (List.replicate (4 * release.pending.length + 1)
      (.walSnd index))).releases[index]? = some finished → finished.Done := by
    refine Lib.run_replicate_done
      (fun current : System => ∀ finished, current.releases[index]? = some finished → finished.Done)
      (fun current => (current.releases[index]?.map (Release.remaining current.ctl)).getD 0)
      ?_ ?_ ?_
    · intro current done finished member
      cases here : current.releases[index]? with
      | none => simp [System.step, here] at member
      | some running =>
        rw [(step_walSnd here).2, (done running here).step current.ctl] at member
        obtain rfl : running = finished := by simpa using member
        exact done running here
    · intro current running
      simp only [not_forall] at running
      obtain ⟨unfinished, here, busy⟩ := running
      obtain ⟨ctl, next⟩ := step_walSnd here
      simpa [here, next, ctl] using Release.step_remaining busy current.ctl
    · simpa [found] using release.remaining_le system.ctl
  have length := Lib.run_unchanged (fun current : System => current.releases.length) step_length
    system (List.replicate (4 * release.pending.length + 1) (.walSnd index))
  obtain ⟨finished, present⟩ : ∃ finished, (system.run (List.replicate
      (4 * release.pending.length + 1) (.walSnd index))).releases[index]? = some finished :=
    ⟨_, List.getElem?_eq_getElem (by rw [length]; exact inside)⟩
  exact ⟨finished, present, allDone finished present⟩

/-- A leaving release that stored a position sets the latch of the waiting backend, provided its
calls reported their stores. -/
theorem step_wakes {proc : Nat} (found : system.releases[index]? = some release)
    (idle : release.pending = []) (staying : release.left = false) (settled : release.Settled)
    (reports : system.ReportsStores) (stored : ∃ call ∈ release.calls, call.stored = true)
    (waiting : system.ctl.syncWaitProc = some proc) :
    proc ∈ (system.step (.walSnd index)).ctl.latches := by
  have updated : release.updateResult = true := by
    obtain ⟨call, member, stores⟩ := stored
    rw [settled.collected, List.any_eq_true]
    refine ⟨call, member, ?_⟩
    rw [reports call (List.mem_flatMap.mpr ⟨release, List.mem_of_getElem? found, member⟩), stores]
  rw [(step_walSnd found).1]
  simp [Release.step, idle, staying, updated, WalSndCtl.syncRepWakeBackend, waiting, WalSndCtl.setLatch]

private theorem start_calls {ctl : WalSndCtl} {recPtrs : List (SyncRepWaitMode → Nat)}
    {call : UpdateCall} (member : call ∈ (System.start ctl recPtrs).calls) :
    ∃ mode value, call = ⟨mode, value, .read, false, false⟩ := by
  obtain ⟨release, started, inside⟩ := List.mem_flatMap.mp member
  obtain ⟨recPtr, -, rfl⟩ := List.mem_map.mp started
  obtain ⟨mode, -, rfl⟩ := List.mem_map.mp (show call ∈ List.map _ _ from inside)
  exact ⟨mode, recPtr mode, rfl⟩

section

variable (ctl : WalSndCtl) (recPtrs : List (SyncRepWaitMode → Nat))

include ctl recPtrs

theorem start_valid : (System.start ctl recPtrs).Valid := by
  intro call member
  obtain ⟨mode, value, rfl⟩ := start_calls member
  exact ⟨by simp, by simp, by simp⟩

theorem start_reportsStores : (System.start ctl recPtrs).ReportsStores := by
  intro call member
  obtain ⟨mode, value, rfl⟩ := start_calls member
  rfl

theorem start_settled : ∀ release ∈ (System.start ctl recPtrs).releases, release.Settled := by
  intro release member
  obtain ⟨recPtr, -, rfl⟩ := List.mem_map.mp member
  exact ⟨by simp [Release.start], by simp [Release.start, Release.calls]⟩

theorem start_offers (mode : SyncRepWaitMode) :
    (System.start ctl recPtrs).offers mode = recPtrs.map (· mode) := by
  induction recPtrs with
  | nil => rfl
  | cons recPtr rest ih =>
    have head : ((Release.start recPtr).calls.filter (·.mode = mode)).map (·.newVal) = [recPtr mode] := by
      cases mode <;> rfl
    simp only [offers, System.calls, System.start, List.map_cons, List.flatMap_cons,
      List.filter_append, List.map_append] at ih ⊢
    rw [head, ih]
    rfl

end

/-- When every release has made its calls, a position is the maximum of its initial value and of
all values offered for it. -/
theorem run_max {ctl : WalSndCtl} {recPtrs : List (SyncRepWaitMode → Nat)} {events : List Event}
    (finished : ∀ release ∈ ((System.start ctl recPtrs).run events).releases, release.pending = [])
    (mode : SyncRepWaitMode) :
    (ctl.lsn mode :: recPtrs.map (· mode)).max? =
      some (((System.start ctl recPtrs).run events).ctl.lsn mode) := by
  have valid := start_valid ctl recPtrs
  have sameOffers := Lib.run_unchanged (fun current : System => current.offers mode)
    (fun current event => step_offers current event mode) (System.start ctl recPtrs) events
  rw [List.max?_eq_some_iff, ← start_offers ctl recPtrs mode]
  refine ⟨lsn_run_mem (System.start ctl recPtrs) events mode, ?_⟩
  intro value member
  rcases List.mem_cons.mp member with rfl | offered
  · exact valid.le_run events mode
  · rw [← sameOffers] at offered
    obtain ⟨call, selected, rfl⟩ := List.mem_map.mp offered
    obtain ⟨present, sameMode⟩ := List.mem_filter.mp selected
    obtain rfl : call.mode = mode := by simpa using sameMode
    obtain ⟨release, inside, made⟩ := List.mem_flatMap.mp present
    refine (valid.run events call present).covered (Or.inl ?_)
    apply (run_settled (start_settled ctl recPtrs) events release inside).finished
    simpa [Release.calls, finished release inside] using made

end System

/-- What the wal senders and the waiting backend rely on, in every state of a run. -/
structure ReleaseContract (ctl : WalSndCtl) (recPtrs : List (SyncRepWaitMode → Nat))
    (events : List Event) : Prop where
  neverDecreases : ∀ before after, before ++ after <+: events → ∀ mode,
    ((System.start ctl recPtrs).run before).ctl.lsn mode ≤
      ((System.start ctl recPtrs).run (before ++ after)).ctl.lsn mode
  endsAtMaximum : ∀ before, before <+: events →
    (∀ release ∈ ((System.start ctl recPtrs).run before).releases, release.pending = []) →
    ∀ mode, (ctl.lsn mode :: recPtrs.map (· mode)).max? =
      some (((System.start ctl recPtrs).run before).ctl.lsn mode)
  terminatesAlone : ∀ before, before <+: events → ∀ index release,
    ((System.start ctl recPtrs).run before).releases[index]? = some release →
    ∃ finished, (((System.start ctl recPtrs).run before).run (List.replicate
      (4 * release.pending.length + 1) (.walSnd index))).releases[index]? = some finished ∧ finished.Done
  reportsStores : ∀ before, before <+: events →
    ∀ call ∈ ((System.start ctl recPtrs).run before).calls, call.result = call.stored
  wakesBackend : ∀ before index release proc, before ++ [.walSnd index] <+: events →
    ((System.start ctl recPtrs).run before).releases[index]? = some release →
    release.pending = [] → release.left = false →
    (∃ call ∈ release.calls, call.stored = true) →
    ((System.start ctl recPtrs).run before).ctl.syncWaitProc = some proc →
    proc ∈ ((System.start ctl recPtrs).run (before ++ [.walSnd index])).ctl.latches

/-- The contract holds along a run precisely when every compare-exchange that stores replaces the
value one: only then does the success test of `AtomicUpdateIfGreater` see its own store. -/
theorem releaseContract_iff (ctl : WalSndCtl) (recPtrs : List (SyncRepWaitMode → Nat))
    (events : List Event) :
    ReleaseContract ctl recPtrs events ↔
      Lib.Along System.step StoreRecognised (System.start ctl recPtrs) events := by
  have valid := System.start_valid ctl recPtrs
  have reports := valid.run_reportsStores_iff (System.start_reportsStores ctl recPtrs)
  constructor
  · intro contract
    exact (reports events).mp (contract.reportsStores events (List.prefix_refl events))
  · intro along
    have reportsAt : ∀ before, before <+: events →
        ((System.start ctl recPtrs).run before).ReportsStores := by
      rintro before ⟨after, rfl⟩
      exact (reports before).mpr ((Lib.along_append _ _ before after).mp along).1
    refine ⟨?_, ?_, ?_, reportsAt, ?_⟩
    · intro before after _ mode
      rw [System.run, Lib.run_append]
      exact (valid.run before).le_run after mode
    · intro before _ finished mode
      exact System.run_max finished mode
    · intro before _ index release found
      exact System.run_alone_done found
    · intro before index release proc scheduled found idle staying stored waiting
      have settled := System.run_settled (System.start_settled ctl recPtrs) before release
        (List.mem_of_getElem? found)
      rw [System.run, Lib.run_append]
      exact System.step_wakes found idle staying settled
        (reportsAt before ((List.prefix_append _ _).trans scheduled)) stored waiting

/-- A single wal sender advances all four positions from 100 to 200 while backend 7 waits: nothing
is reported and the latch stays unset. -/
theorem releaseContract_fails_above_one : (((System.start ⟨fun _ => 100, none, []⟩ [fun _ => 200]).run
      (.backendWaits 7 :: List.replicate 13 (.walSnd 0))).ctl.lsn .flush = 200 ∧
    ((System.start ⟨fun _ => 100, none, []⟩ [fun _ => 200]).run
      (.backendWaits 7 :: List.replicate 13 (.walSnd 0))).ctl.latches = []) ∧
    ¬ ReleaseContract ⟨fun _ => 100, none, []⟩ [fun _ => 200]
      (.backendWaits 7 :: List.replicate 13 (.walSnd 0)) := by
  refine ⟨by decide, ?_⟩
  intro contract
  have woken := contract.wakesBackend (.backendWaits 7 :: List.replicate 12 (.walSnd 0)) 0 _ 7
    (List.prefix_refl _) rfl rfl rfl (by decide) rfl
  revert woken
  decide

end OpenGauss.Replication
