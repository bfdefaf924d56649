import Mathlib.Logic.Basic

namespace Odyssey.Systems

variable {State Event : Type*} (step : State → Event → Option State)

/-- A run stops without a state at the first step that has none. -/
def run : State → List Event → Option State
  | state, [] => some state
  | state, event :: events => (step state event).bind (run · events)

/-- Every step of the run is taken in a state and with an event that meet the condition. -/
def StepsMeet (condition : State → Event → Prop) : State → List Event → Prop
  | _, [] => True
  | state, event :: events =>
    condition state event ∧
      ∀ next, step state event = some next → StepsMeet condition next events

variable {step} {condition : State → Event → Prop} {state next final : State} {event : Event} {events : List Event}

theorem StepsMeet.cons (met : condition state event) (stepped : step state event = some next)
    (rest : StepsMeet step condition next events) : StepsMeet step condition state (event :: events) := by
  refine ⟨met, ?_⟩
  intro other same
  rw [stepped] at same
  exact Option.some.inj same ▸ rest

theorem reaches_of_check {property : State → Prop} [DecidablePred property]
    (checked : (run step state events).any (fun final => decide (property final)) = true) :
    ∃ final, run step state events = some final ∧ property final := by
  cases ran : run step state events with
  | none =>
    rw [ran] at checked
    cases checked
  | some final =>
    rw [ran] at checked
    exact ⟨final, rfl, of_decide_eq_true checked⟩

def checkSteps (step : State → Event → Option State) (check : State → Event → Bool) :
    State → List Event → Bool
  | _, [] => true
  | state, event :: events =>
    check state event && (step state event).all (checkSteps step check · events)

theorem stepsMeet_of_check {check : State → Event → Bool}
    (sound : ∀ state event, check state event = true → condition state event) (events : List Event) (state : State)
    (checked : checkSteps step check state events = true) : StepsMeet step condition state events := by
  induction events generalizing state with
  | nil => trivial
  | cons event events ih =>
    rcases Bool.and_eq_true_iff.mp checked with ⟨here, rest⟩
    refine ⟨sound state event here, ?_⟩
    intro next stepped
    rw [stepped] at rest
    exact ih next rest

/-- What holds at the start and is kept by every step that meets the condition holds at the end of
    every run whose steps meet it. -/
theorem run_invariant_of_meets {invariant : State → Prop}
    (kept : ∀ state event next, invariant state → condition state event →
      step state event = some next → invariant next)
    (events : List Event) {state final : State} (start : invariant state)
    (met : StepsMeet step condition state events) (ran : run step state events = some final) :
    invariant final := by
  induction events generalizing state with
  | nil => exact Option.some.inj ran ▸ start
  | cons event events ih =>
    rcases Option.bind_eq_some_iff.mp ran with ⟨next, stepped, rest⟩
    exact ih (kept state event next start met.1 stepped) (met.2 next stepped) rest

/-- Where every step that meets the condition has a next state, every run whose steps meet it has an end. -/
theorem run_returns {invariant : State → Prop} (returns : ∀ state event, invariant state → condition state event →
      ∃ next, step state event = some next ∧ invariant next)
    (events : List Event) (start : invariant state) (met : StepsMeet step condition state events) :
    ∃ final, run step state events = some final ∧ invariant final := by
  induction events generalizing state with
  | nil => exact ⟨state, rfl, start⟩
  | cons event events ih =>
    rcases returns state event start met.1 with ⟨next, stepped, holds⟩
    rw [run, stepped]
    exact ih holds (met.2 next stepped)

theorem stepsMeet_of_forall (always : ∀ state event, condition state event) (events : List Event) (state : State) :
    StepsMeet step condition state events := by
  induction events generalizing state with
  | nil => trivial
  | cons event events ih => exact ⟨always state event, fun next _ => ih next⟩

theorem run_invariant {invariant : State → Prop}
    (kept : ∀ state event next, invariant state → step state event = some next → invariant next)
    (events : List Event) (start : invariant state) (ran : run step state events = some final) : invariant final :=
  run_invariant_of_meets (fun state event next holds _ => kept state event next holds) events start
    (stepsMeet_of_forall (fun _ _ => trivial) events state) ran

/-- A simulation: two systems whose steps keep a relation end a run together, in states that show it. -/
theorem run_rel {Other : Type*} {other : Other → Event → Option Other} {relation shown : State → Other → Prop}
    (shows : ∀ state image, relation state image → shown state image)
    (kept : ∀ state image event, relation state image → Option.Rel relation (step state event) (other image event))
    (events : List Event) {image : Other} (start : relation state image) :
    Option.Rel shown (run step state events) (run other image events) := by
  induction events generalizing state image with
  | nil => exact .some (shows state image start)
  | cons event events ih =>
    have stepped := kept state image event start
    unfold run
    generalize step state event = next at stepped
    generalize other image event = after at stepped
    cases stepped with
    | some related => exact ih related
    | none => exact .none

end Odyssey.Systems
