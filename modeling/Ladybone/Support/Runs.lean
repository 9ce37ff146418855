import Mathlib.Data.Option.Basic

/-!
# Runs of a partial transition function

`step state action` is the next state, or `none` when the action cannot be taken.
`Execution allowed` are the runs whose every step meets a condition on the state it is
taken in.
-/

namespace Ladybone.Support.Runs

variable {State Action : Type*}

inductive Execution (step : State → Action → Option State)
    (allowed : State → Action → Prop) (start : State) : State → Prop where
  | refl : Execution step allowed start start
  | tail {middle finish : State} (action : Action) :
      Execution step allowed start middle → allowed middle action →
        step middle action = some finish → Execution step allowed start finish

def Unrestricted (_ : State) (_ : Action) : Prop := True

variable {step : State → Action → Option State} {allowed : State → Action → Prop}

/-- What the start has and every allowed step keeps, every state of a run has. -/
theorem Execution.invariant {start finish : State} (holds : State → Prop) (initial : holds start)
    (kept : ∀ state action next, holds state → allowed state action →
      step state action = some next → holds next)
    (run : Execution step allowed start finish) : holds finish := by
  induction run with
  | refl => exact initial
  | tail action _ permitted stepped ih => exact kept _ action _ ih permitted stepped

def follow (step : State → Action → Option State) (permits : State → Action → Bool) :
    State → List Action → Option State
  | state, [] => some state
  | state, action :: rest =>
    if permits state action then
      match step state action with
      | some next => follow step permits next rest
      | none => none
    else none

theorem Execution.of_follow (permits : State → Action → Bool) (actions : List Action)
    (sound : ∀ state action, permits state action = true → allowed state action)
    {start middle finish : State} (reached : Execution step allowed start middle)
    (followed : follow step permits middle actions = some finish) :
    Execution step allowed start finish := by
  induction actions generalizing middle with
  | nil => rwa [← Option.some.inj followed]
  | cons action _ ih =>
    simp only [follow] at followed
    split at followed
    · rename_i permitted
      split at followed
      · rename_i next stepped
        exact ih (Execution.tail action reached (sound _ _ permitted) stepped) followed
      · cases followed
    · cases followed

/-- Without a condition, actions that can be taken one after the other are a run. -/
theorem Execution.of_actions (actions : List Action) {start finish : State}
    (followed : follow step (fun _ _ => true) start actions = some finish) :
    Execution step Unrestricted start finish :=
  of_follow _ actions (fun _ _ _ => trivial) .refl followed

end Ladybone.Support.Runs
