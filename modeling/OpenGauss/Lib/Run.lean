import Mathlib.Tactic

/-! Runs of a deterministic step function over a schedule of events: the schedule decides which
party moves next. -/

namespace OpenGauss.Lib

universe u v

variable {State : Type u} {Event : Type v}

/-- The state after a whole schedule. -/
def run (step : State → Event → State) (state : State) (events : List Event) : State :=
  events.foldl step state

/-- Every step of the run starts in a state where its event satisfies `allowed`. -/
def Along (step : State → Event → State) (allowed : State → Event → Prop) : State → List Event → Prop
  | _, [] => True
  | state, event :: rest => allowed state event ∧ Along step allowed (step state event) rest

variable {step : State → Event → State}

instance decidableAlong {allowed : State → Event → Prop} [∀ state event, Decidable (allowed state event)] :
    ∀ state events, Decidable (Along step allowed state events)
  | _, [] => .isTrue trivial
  | state, event :: rest =>
    have := @decidableAlong allowed _ (step state event) rest
    inferInstanceAs (Decidable (_ ∧ _))

@[simp] theorem run_nil (state : State) : run step state [] = state := rfl

@[simp] theorem run_cons (state : State) (event : Event) (rest : List Event) :
    run step state (event :: rest) = run step (step state event) rest := rfl

@[simp] theorem run_append (state : State) (before after : List Event) :
    run step state (before ++ after) = run step (run step state before) after := by
  simp [run, List.foldl_append]

theorem along_append (allowed : State → Event → Prop) (state : State) (before after : List Event) :
    Along step allowed state (before ++ after) ↔
      Along step allowed state before ∧ Along step allowed (run step state before) after := by
  induction before generalizing state with
  | nil => simp [Along]
  | cons event rest ih => simp [Along, ih, and_assoc]

variable {allowed : State → Event → Prop} {state : State} {events : List Event}

theorem along_iff :
    Along step allowed state events ↔ ∀ before event after, events = before ++ event :: after →
      allowed (run step state before) event := by
  constructor
  · rintro along before event after rfl
    exact ((along_append allowed state before _).mp along).2.1
  · intro each
    induction events generalizing state with
    | nil => trivial
    | cons event rest ih =>
      refine ⟨each [] event rest rfl, ih ?_⟩
      rintro before next after rfl
      exact each (event :: before) next after rfl

/-- The invariant rule for runs whose steps are all allowed. -/
theorem run_invariant_along (invariant : State → Prop)
    (preserved : ∀ state event, allowed state event → invariant state → invariant (step state event))
    (along : Along step allowed state events) (holds : invariant state) :
      invariant (run step state events) := by
  induction events generalizing state with
  | nil => exact holds
  | cons event rest ih => exact ih along.2 (preserved state event along.1 holds)

/-- The invariant rule for arbitrary runs. -/
theorem run_invariant (invariant : State → Prop)
    (preserved : ∀ state event, invariant state → invariant (step state event)) (holds : invariant state)
    (events : List Event) :
    invariant (run step state events) := by
  induction events generalizing state with
  | nil => exact holds
  | cons event rest ih => exact ih (preserved state event holds)

/-- A function of the state unchanged by every step is unchanged by every run. -/
theorem run_unchanged {Value : Type*} (view : State → Value)
    (unchanged : ∀ state event, view (step state event) = view state)
    (state : State) (events : List Event) : view (run step state events) = view state :=
  run_invariant (fun current => view current = view state)
    (fun current event same => (unchanged current event).trans same) rfl events

private theorem run_replicate_stable {event : Event} {done : State → Prop}
    (stable : ∀ state, done state → done (step state event)) (count : Nat) {state : State}
    (finished : done state) : done (run step state (List.replicate count event)) := by
  induction count generalizing state with
  | zero => exact finished
  | succ count ih => exact ih (stable state finished)

/-- A step that lowers a natural measure until `done` reaches `done` when repeated often enough. -/
theorem run_replicate_done {event : Event} (done : State → Prop) (measure : State → Nat)
    (stable : ∀ state, done state → done (step state event))
    (lower : ∀ state, ¬ done state → measure (step state event) < measure state) {bound : Nat}
    (enough : measure state ≤ bound) :
    done (run step state (List.replicate bound event)) := by
  induction bound generalizing state with
  | zero =>
    by_contra unfinished
    have := lower state unfinished
    omega
  | succ bound ih =>
    by_cases finished : done state
    · exact run_replicate_stable stable _ finished
    · have := lower state finished
      exact ih (by omega)

end OpenGauss.Lib
