import OpenGauss.Lib.Lists
import OpenGauss.Replication.AtomicUpdate

namespace OpenGauss.Replication

/-- Everything one atomic step of a call can do. -/
theorem UpdateCall.step_cases (value : Nat) (call : UpdateCall) :
    (call.pc = .returned ∧ call.step value = (value, call)) ∨
    (call.pc = .read ∧ call.newVal ≤ value ∧ call.step value = (value, { call with pc := .returned })) ∨
    (call.pc = .read ∧ value < call.newVal ∧
      call.step value = (value, { call with pc := .exchange value })) ∨
    (call.pc = .exchange value ∧ value = 1 ∧ call.step value =
        (call.newVal, { call with pc := .returned, result := true, stored := true })) ∨
    (call.pc = .exchange value ∧ value ≠ 1 ∧
      call.step value = (call.newVal, { call with pc := .read, stored := true })) ∨
    (∃ oldVal, call.pc = .exchange oldVal ∧ value ≠ oldVal ∧ value = 0 ∧
      call.step value = (value, { call with pc := .returned, result := true })) ∨
    (∃ oldVal, call.pc = .exchange oldVal ∧ value ≠ oldVal ∧ value ≠ 0 ∧
      call.step value = (value, { call with pc := .read })) := by
  cases pc : call.pc with
  | returned => simp [step, pc]
  | read =>
    by_cases reached : call.newVal ≤ value
    · simp [step, pc, reached]
    · simp [step, pc, reached]
      omega
  | exchange oldVal =>
    by_cases same : value = oldVal
    · subst same
      by_cases one : value = 1
      · simp [step, pc, pgAtomicCompareExchangeU64, one]
      · simp [step, pc, pgAtomicCompareExchangeU64, one, Ne.symm one]
    · by_cases zero : value = 0
      · subst zero
        simp [step, pc, pgAtomicCompareExchangeU64, same]
      · simp [step, pc, pgAtomicCompareExchangeU64, same, zero, Ne.symm zero]

/-- What holds of a call in progress on a position whose value is `value`. -/
structure UpdateCall.Valid (value : Nat) (call : UpdateCall) : Prop where
  exchanging : ∀ oldVal, call.pc = .exchange oldVal →
    oldVal < call.newVal ∧ oldVal ≤ value ∧ call.stored = false
  covered : call.pc = .returned ∨ call.stored = true → call.newVal ≤ value
  honest : call.result = true → call.stored = true

namespace UpdateCall.Valid

variable {value : Nat} {call : UpdateCall}

section

variable (valid : call.Valid value)

include valid

theorem mono {larger : Nat} (bound : value ≤ larger) : call.Valid larger where
  exchanging oldVal pc := by
    obtain ⟨below, seen, fresh⟩ := valid.exchanging oldVal pc
    exact ⟨below, seen.trans bound, fresh⟩
  covered done := (valid.covered done).trans bound
  honest := valid.honest

theorem le_step : value ≤ (call.step value).1 := by
  rcases call.step_cases value with ⟨-, step⟩ | ⟨-, -, step⟩ | ⟨-, -, step⟩ | ⟨pc, -, step⟩ |
    ⟨pc, -, step⟩ | ⟨_, -, -, -, step⟩ | ⟨_, -, -, -, step⟩ <;> rw [step]
  · exact (valid.exchanging _ pc).1.le
  · exact (valid.exchanging _ pc).1.le

theorem step : (call.step value).2.Valid (call.step value).1 := by
  rcases call.step_cases value with ⟨-, step⟩ | ⟨-, reached, step⟩ | ⟨pc, below, step⟩ |
    ⟨-, -, step⟩ | ⟨-, -, step⟩ | ⟨oldVal, pc, other, zero, -⟩ | ⟨oldVal, pc, other, -, step⟩
  · simpa only [step] using valid
  · simp only [step]
    exact ⟨by simp, fun _ => reached, valid.honest⟩
  · simp only [step]
    have fresh : call.stored = false := by
      by_contra stored
      have := valid.covered (Or.inr (by simpa using stored))
      omega
    refine ⟨?_, ?_, valid.honest⟩
    · rintro oldVal pcs
      injection pcs with same
      exact ⟨same ▸ below, same ▸ le_rfl, fresh⟩
    · simp [fresh]
  · simp only [step]
    exact ⟨by simp, fun _ => le_rfl, fun _ => rfl⟩
  · simp only [step]
    exact ⟨by simp, fun _ => le_rfl, fun _ => rfl⟩
  · -- A position that changed since it was read has grown, so it is not zero.
    have := (valid.exchanging oldVal pc).2.1
    omega
  · simp only [step]
    have fresh := (valid.exchanging oldVal pc).2.2
    exact ⟨by simp, by simp [fresh], valid.honest⟩

/-- The reported result agrees with the store after a step that stores only over the value one. -/
theorem step_agrees (agrees : call.result = call.stored)
    (recognised : call.pc = .exchange value → value = 1) :
    (call.step value).2.result = (call.step value).2.stored := by
  rcases call.step_cases value with ⟨-, step⟩ | ⟨-, -, step⟩ | ⟨-, -, step⟩ | ⟨-, -, step⟩ |
    ⟨pc, other, -⟩ | ⟨oldVal, pc, other, zero, -⟩ | ⟨_, -, -, -, step⟩
  · simpa only [step] using agrees
  · simpa only [step] using agrees
  · simpa only [step] using agrees
  · simp only [step]
  · exact absurd (recognised pc) other
  · have := (valid.exchanging oldVal pc).2.1
    omega
  · simpa only [step] using agrees

/-- A store over any other value is never reported, neither by this step nor by a later one. -/
theorem step_lost
    (lost : (call.stored = true ∧ call.result = false) ∨ (call.pc = .exchange value ∧ value ≠ 1)) :
    (call.step value).2.stored = true ∧ (call.step value).2.result = false := by
  have unreported : call.result = false := by
    rcases lost with ⟨-, unreported⟩ | ⟨pc, -⟩
    · exact unreported
    · have := (valid.exchanging _ pc).2.2
      have := valid.honest
      grind
  rcases call.step_cases value with ⟨pc, step⟩ | ⟨pc, -, step⟩ | ⟨pc, -, step⟩ | ⟨pc, one, -⟩ |
    ⟨-, -, step⟩ | ⟨oldVal, pc, other, -, -⟩ | ⟨oldVal, pc, other, -, step⟩
  · simp_all
  · simp_all
  · simp_all
  · have := (valid.exchanging _ pc).2.2
    simp_all
  · simp [step, unreported]
  · have := (valid.exchanging _ pc).2.2
    simp_all
  · have := (valid.exchanging _ pc).2.2
    simp_all

end

end UpdateCall.Valid

namespace UpdateCall

variable (value : Nat) (call : UpdateCall)

@[simp] theorem step_mode : (call.step value).2.mode = call.mode := by
  rcases call.step_cases value with ⟨-, step⟩ | ⟨-, -, step⟩ | ⟨-, -, step⟩ | ⟨-, -, step⟩ |
    ⟨-, -, step⟩ | ⟨_, -, -, -, step⟩ | ⟨_, -, -, -, step⟩ <;> rw [step]

@[simp] theorem step_newVal : (call.step value).2.newVal = call.newVal := by
  rcases call.step_cases value with ⟨-, step⟩ | ⟨-, -, step⟩ | ⟨-, -, step⟩ | ⟨-, -, step⟩ |
    ⟨-, -, step⟩ | ⟨_, -, -, -, step⟩ | ⟨_, -, -, -, step⟩ <;> rw [step]

theorem step_fst : (call.step value).1 = value ∨ (call.step value).1 = call.newVal := by
  rcases call.step_cases value with ⟨-, step⟩ | ⟨-, -, step⟩ | ⟨-, -, step⟩ | ⟨-, -, step⟩ |
    ⟨-, -, step⟩ | ⟨_, -, -, -, step⟩ | ⟨_, -, -, -, step⟩ <;> simp [step]

theorem step_result (reported : call.result = true) : (call.step value).2.result = true := by
  rcases call.step_cases value with ⟨-, step⟩ | ⟨-, -, step⟩ | ⟨-, -, step⟩ | ⟨-, -, step⟩ |
    ⟨-, -, step⟩ | ⟨_, -, -, -, step⟩ | ⟨_, -, -, -, step⟩ <;> simp [step, reported]

/-- The number of own steps a call needs when nobody else moves its position. -/
def remaining : Nat :=
  match call.pc with
  | .returned => 1
  | .read => if call.newVal ≤ value then 1 else 3
  | .exchange oldVal => if value = oldVal ∨ call.newVal ≤ value then 2 else 4

theorem remaining_pos : 0 < call.remaining value := by
  unfold remaining
  split <;> (try split) <;> omega

theorem remaining_le : call.remaining value ≤ 4 := by
  unfold remaining
  split <;> (try split) <;> omega

theorem step_remaining (running : (call.step value).2.pc ≠ .returned) :
    (call.step value).2.remaining (call.step value).1 < call.remaining value := by
  rcases call.step_cases value with ⟨pc, step⟩ | ⟨-, -, step⟩ | ⟨pc, below, step⟩ | ⟨-, -, step⟩ |
    ⟨pc, -, step⟩ | ⟨_, -, -, -, step⟩ | ⟨oldVal, pc, other, -, step⟩
  · simp [step, pc] at running
  · simp [step] at running
  · have unreached : ¬ call.newVal ≤ value := by omega
    simp [step, remaining, pc, unreached]
  · simp [step] at running
  · simp [step, remaining, pc]
  · simp [step] at running
  · simp only [step, remaining, pc, other, false_or]
    split <;> simp

end UpdateCall

variable (ctl : WalSndCtl)

theorem Release.step_running {release : Release} {call : UpdateCall} {rest : List UpdateCall}
    (running : release.pending = call :: rest) :
    (release.step ctl).1 = ctl.setLsn call.mode (call.step (ctl.lsn call.mode)).1 ∧
      (release.step ctl).2.calls = release.returned ++ (call.step (ctl.lsn call.mode)).2 :: rest ∧
      (release.step ctl).2.updateResult =
        (release.updateResult || (call.step (ctl.lsn call.mode)).2.result) := by
  simp only [Release.step, running]
  split <;> simp [Release.calls]

@[simp] theorem WalSndCtl.syncRepWakeBackend_lsn :
    ctl.syncRepWakeBackend.lsn = ctl.lsn := by
  unfold WalSndCtl.syncRepWakeBackend
  split <;> rfl

theorem Release.step_idle {release : Release} (idle : release.pending = []) :
    (release.step ctl).1.lsn = ctl.lsn ∧ (release.step ctl).2.calls = release.calls ∧
      (release.step ctl).2.updateResult = release.updateResult := by
  simp only [Release.step, idle]
  split
  · simp
  · refine ⟨?_, by simp [Release.calls, idle], rfl⟩
    split <;> simp

/-- Every activation of `AtomicUpdateIfGreater` in the system. -/
def System.calls (system : System) : List UpdateCall := system.releases.flatMap Release.calls

/-- Everything a step can do to the shared positions and to the calls: nothing, or one step of
one call on the position of its mode. -/
theorem System.step_calls (system : System) (event : Event) :
    ((system.step event).ctl.lsn = system.ctl.lsn ∧ (system.step event).calls = system.calls ∧
      system.replaced event = none) ∨
    ∃ before call after, system.calls = before ++ call :: after ∧ (system.step event).ctl.lsn =
        Function.update system.ctl.lsn call.mode (call.step (system.ctl.lsn call.mode)).1 ∧
      (system.step event).calls = before ++ (call.step (system.ctl.lsn call.mode)).2 :: after ∧
      ∀ value, system.replaced event = some value ↔
        call.pc = .exchange value ∧ system.ctl.lsn call.mode = value := by
  cases event with
  | backendWaits proc => exact Or.inl ⟨rfl, rfl, rfl⟩
  | backendWakes => exact Or.inl ⟨rfl, rfl, rfl⟩
  | walSnd index =>
    cases found : system.releases[index]? with
    | none => exact Or.inl (by simp [System.step, System.replaced, found])
    | some release =>
      obtain ⟨front, back, -, whole, replace, -⟩ := Lib.split_at_index found
      have calls : system.calls =
          front.flatMap Release.calls ++ release.calls ++ back.flatMap Release.calls := by
        simp [System.calls, whole]
      cases running : release.pending with
      | nil =>
        left
        obtain ⟨sameLsn, sameCalls, -⟩ := Release.step_idle system.ctl running
        refine ⟨by simpa [System.step, found] using sameLsn, ?_, ?_⟩
        · rw [calls]
          simp [System.step, found, System.calls, replace, sameCalls]
        · simp [System.replaced, found, running]
      | cons call rest =>
        right
        obtain ⟨ctl, nextCalls, -⟩ := Release.step_running system.ctl running
        refine ⟨front.flatMap Release.calls ++ release.returned, call,
          rest ++ back.flatMap Release.calls, ?_, ?_, ?_, ?_⟩
        · simp [calls, Release.calls, running]
        · simp [System.step, found, ctl, WalSndCtl.setLsn]
        · simp [System.step, found, System.calls, replace, nextCalls]
        · intro value
          cases pc : call.pc with
          | exchange oldVal =>
            simp [System.replaced, found, running, pc]
            grind
          | _ => simp [System.replaced, found, running, pc]

/-- Every call respects the position of its mode. -/
def System.Valid (system : System) : Prop :=
  ∀ call ∈ system.calls, call.Valid (system.ctl.lsn call.mode)

namespace System

variable {system : System}

theorem Valid.le_step (valid : system.Valid) (event : Event) (mode : SyncRepWaitMode) :
    system.ctl.lsn mode ≤ (system.step event).ctl.lsn mode := by
  rcases system.step_calls event with ⟨sameLsn, -, -⟩ | ⟨before, call, after, calls, lsn, -, -⟩
  · rw [sameLsn]
  · have callValid := valid call (by simp [calls])
    rw [lsn]
    by_cases same : mode = call.mode
    · subst same
      simpa using callValid.le_step
    · simp [same]

theorem Valid.step (valid : system.Valid) (event : Event) : (system.step event).Valid := by
  have grows := valid.le_step event
  rcases system.step_calls event with ⟨sameLsn, sameCalls, -⟩ |
    ⟨before, call, after, calls, lsn, nextCalls, -⟩
  · simpa [System.Valid, sameLsn, sameCalls] using valid
  · intro other member
    have known : other ∈ system.calls ∨ other = (call.step (system.ctl.lsn call.mode)).2 := by
      simp only [nextCalls, List.mem_append, List.mem_cons] at member
      simp only [calls, List.mem_append, List.mem_cons]
      tauto
    rcases known with unmoved | rfl
    · exact (valid other unmoved).mono (grows other.mode)
    · simpa [lsn] using (valid call (by simp [calls])).step

theorem Valid.run (valid : system.Valid) (events : List Event) : (system.run events).Valid :=
  Lib.run_invariant System.Valid (fun _ event held => held.step event) valid events

theorem Valid.le_run (valid : system.Valid) (events : List Event) (mode : SyncRepWaitMode) :
    system.ctl.lsn mode ≤ (system.run events).ctl.lsn mode := by
  have both : (system.run events).Valid ∧ system.ctl.lsn mode ≤ (system.run events).ctl.lsn mode :=
    Lib.run_invariant (fun current : System => current.Valid ∧ system.ctl.lsn mode ≤ current.ctl.lsn mode)
      (fun current event held => ⟨held.1.step event, held.2.trans (held.1.le_step event mode)⟩)
      ⟨valid, le_rfl⟩ events
  exact both.2

/-- The values offered for one position, in the order of the releases. -/
def offers (system : System) (mode : SyncRepWaitMode) : List Nat :=
  (system.calls.filter (·.mode = mode)).map (·.newVal)

theorem step_offers (system : System) (event : Event) (mode : SyncRepWaitMode) :
    (system.step event).offers mode = system.offers mode := by
  rcases system.step_calls event with ⟨-, sameCalls, -⟩ | ⟨before, call, after, calls, -, nextCalls, -⟩
  · simp [offers, sameCalls]
  · simp only [offers, calls, nextCalls, List.filter_append, List.filter_cons, UpdateCall.step_mode]
    split <;> simp

/-- A position only ever holds its initial value or an offered one. -/
theorem lsn_run_mem (system : System) (events : List Event) (mode : SyncRepWaitMode) :
    (system.run events).ctl.lsn mode ∈ system.ctl.lsn mode :: system.offers mode := by
  have both : (system.run events).offers mode = system.offers mode ∧
      (system.run events).ctl.lsn mode ∈ system.ctl.lsn mode :: system.offers mode := by
    refine Lib.run_invariant (fun current : System => current.offers mode = system.offers mode ∧
      current.ctl.lsn mode ∈ system.ctl.lsn mode :: system.offers mode) ?_ (by simp) events
    rintro current event ⟨sameOffers, member⟩
    refine ⟨(step_offers current event mode).trans sameOffers, ?_⟩
    rcases current.step_calls event with ⟨sameLsn, -, -⟩ | ⟨before, call, after, calls, lsn, -, -⟩
    · rwa [sameLsn]
    · rw [lsn]
      by_cases same : mode = call.mode
      · subst same
        simp only [Function.update_self]
        rcases call.step_fst (current.ctl.lsn call.mode) with kept | stored
        · rwa [kept]
        · rw [stored, ← sameOffers]
          exact List.mem_cons_of_mem _ (by simp [offers, calls])
      · simpa [same] using member
  exact both.2

/-- Some call stored its value and can no longer report it. -/
def LosesStore (system : System) : Prop :=
  ∃ call ∈ system.calls, call.stored = true ∧ call.result = false

theorem Valid.step_losesStore (valid : system.Valid) (event : Event)
    (lost : system.LosesStore ∨ ¬ StoreRecognised system event) :
    (system.step event).LosesStore := by
  rcases system.step_calls event with ⟨-, sameCalls, silent⟩ |
    ⟨before, call, after, calls, -, nextCalls, replaced⟩
  · rcases lost with lost | unrecognised
    · simpa [LosesStore, sameCalls] using lost
    · simp [StoreRecognised, silent] at unrecognised
  · have moved := fun lostNow => (valid call (by simp [calls])).step_lost lostNow
    have unmoved : ∀ other ∈ before ++ after, other ∈ (system.step event).calls := by
      intro other member
      rw [nextCalls]
      simp only [List.mem_append, List.mem_cons] at member ⊢
      tauto
    have here : (call.step (system.ctl.lsn call.mode)).2 ∈ (system.step event).calls := by
      simp [nextCalls]
    rcases lost with ⟨other, member, stored, silent⟩ | unrecognised
    · by_cases same : other = call
      · subst same
        exact ⟨_, here, moved (Or.inl ⟨stored, silent⟩)⟩
      · refine ⟨other, unmoved other ?_, stored, silent⟩
        simp only [calls, List.mem_append, List.mem_cons, same, false_or] at member ⊢
        exact member
    · simp only [StoreRecognised, not_forall] at unrecognised
      obtain ⟨value, exchange, other⟩ := unrecognised
      obtain ⟨pc, rfl⟩ := (replaced value).mp exchange
      exact ⟨_, here, moved (Or.inr ⟨pc, other⟩)⟩

/-- Every call reports exactly the store of its own compare-exchange. -/
def ReportsStores (system : System) : Prop :=
  ∀ call ∈ system.calls, call.result = call.stored

theorem Valid.step_reportsStores (valid : system.Valid) (event : Event)
    (recognised : StoreRecognised system event) (reports : system.ReportsStores) :
    (system.step event).ReportsStores := by
  rcases system.step_calls event with ⟨-, sameCalls, -⟩ |
    ⟨before, call, after, calls, -, nextCalls, replaced⟩
  · simpa [ReportsStores, sameCalls] using reports
  · intro other member
    simp only [nextCalls, List.mem_append, List.mem_cons] at member
    rcases member with front | rfl | back
    · exact reports other (by simp [calls, front])
    · refine (valid call (by simp [calls])).step_agrees (reports call (by simp [calls])) ?_
      intro pc
      exact recognised _ ((replaced _).mpr ⟨pc, rfl⟩)
    · exact reports other (by simp [calls, back])

/-- A run keeps every report exact precisely when each of its stores replaces the value one. -/
theorem Valid.run_reportsStores_iff (valid : system.Valid) (reports : system.ReportsStores)
    (events : List Event) :
    (system.run events).ReportsStores ↔ Lib.Along System.step StoreRecognised system events := by
  constructor
  · intro final
    by_contra unrecognised
    simp only [Lib.along_iff, not_forall] at unrecognised
    obtain ⟨before, event, after, rfl, lost⟩ := unrecognised
    have sunk : (system.run (before ++ event :: after)).Valid ∧
        (system.run (before ++ event :: after)).LosesStore := by
      rw [System.run, Lib.run_append, Lib.run_cons]
      refine Lib.run_invariant (fun current : System => current.Valid ∧ current.LosesStore)
        (fun current next held => ⟨held.1.step next, held.1.step_losesStore next (Or.inl held.2)⟩)
        ⟨(valid.run before).step event, (valid.run before).step_losesStore event (Or.inr lost)⟩ after
    obtain ⟨call, member, stored, silent⟩ := sunk.2
    have := final call member
    simp [stored, silent] at this
  · intro along
    have both : (system.run events).Valid ∧ (system.run events).ReportsStores :=
      Lib.run_invariant_along (fun current : System => current.Valid ∧ current.ReportsStores)
        (fun current event recognised held =>
          ⟨held.1.step event, held.1.step_reportsStores event recognised held.2⟩)
        along ⟨valid, reports⟩
    exact both.2

end System

end OpenGauss.Replication
