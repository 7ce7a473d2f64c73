import Mathlib.Logic.Relation

/-!
# Transition systems

A transition system is a set of initial states and a step relation.  Safety
results are stated over reachable states and proved by the invariant rule;
restricting the step relation describes the runs all of whose steps meet a
condition.
-/

namespace AoclDlp.Foundations.Transition

universe u v

/-- A state space with initial states and a step relation. -/
structure Machine (State : Type u) where
  Init : State → Prop
  Step : State → State → Prop

namespace Machine

variable {State : Type u} {Label : Type v}

/-- States at the end of some finite run. -/
inductive Reachable (machine : Machine State) : State → Prop where
  | init {state : State} :
      machine.Init state → Reachable machine state
  | step {state next : State} :
      Reachable machine state → machine.Step state next →
        Reachable machine next

/-- The invariant rule. -/
theorem Reachable.invariant
    {machine : Machine State} (Inv : State → Prop)
    (initial : ∀ state, machine.Init state → Inv state)
    (preserved : ∀ state next,
      Inv state → machine.Step state next → Inv next)
    {state : State} (reachable : machine.Reachable state) :
    Inv state := by
  induction reachable with
  | init start => exact initial _ start
  | step _ step ih => exact preserved _ _ ih step

/-- Runs can be continued. -/
theorem Reachable.steps {machine : Machine State} {state final : State}
    (reachable : machine.Reachable state)
    (steps : Relation.ReflTransGen machine.Step state final) :
    machine.Reachable final := by
  induction steps with
  | refl => exact reachable
  | tail _ step ih => exact ih.step step

/-- The machine that performs one of a family of actions at each step. -/
def ofActions (initial : State) (act : Label → State → State) :
    Machine State where
  Init state := state = initial
  Step state next := ∃ label, next = act label state

/-- The runs of a family of actions all of whose steps meet a condition. -/
def ofGuardedActions (initial : State) (act : Label → State → State)
    (Allowed : State → Label → Prop) : Machine State where
  Init state := state = initial
  Step state next := ∃ label, Allowed state label ∧ next = act label state

/-- Run a schedule of actions. -/
def runActions (act : Label → State → State) (state : State)
    (schedule : List Label) : State :=
  schedule.foldl (fun current label => act label current) state

theorem reachable_runActions
    {initial : State} {act : Label → State → State} {state : State}
    (reachable : (ofActions initial act).Reachable state)
    (schedule : List Label) :
    (ofActions initial act).Reachable (runActions act state schedule) := by
  induction schedule generalizing state with
  | nil => exact reachable
  | cons label rest ih => exact ih (reachable.step ⟨label, rfl⟩)

end Machine

end AoclDlp.Foundations.Transition
