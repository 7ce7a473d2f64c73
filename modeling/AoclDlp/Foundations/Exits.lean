import Mathlib.Logic.Basic

/-!
# Programs with early exits

A program over a state returns a value or leaves early; both keep the state
that it reached, so that code behind a common exit label sees it.  A triple
bounds the two outcomes separately.  A program and the code behind its exit
label run one after the other whichever way the program ended.
-/

namespace AoclDlp.Foundations.Exits

variable {Exit State Value Result : Type}

/-- The state in which a program ends, either way. -/
def finalState (program : EStateM Exit State Value) (state : State) : State :=
  match program state with
  | .ok _ reached => reached
  | .error _ reached => reached

/-- From `pre`, the program returns within `post` or leaves within `exit`. -/
def Triple (pre : State → Prop) (program : EStateM Exit State Value)
    (post : Value → State → Prop) (exit : State → Prop) : Prop :=
  ∀ state, pre state →
    match program state with
    | .ok value reached => post value reached
    | .error _ reached => exit reached

namespace Triple

variable {pre : State → Prop} {post : Value → State → Prop}
    {exit : State → Prop}

theorem ret {value : Value}
    (holds : ∀ state, pre state → post value state) :
    Triple pre (pure value : EStateM Exit State Value) post exit :=
  holds

theorem update {change : State → State} {after : Unit → State → Prop}
    (holds : ∀ state, pre state → after () (change state)) :
    Triple pre (modify change : EStateM Exit State Unit) after exit :=
  holds

theorem seq {program : EStateM Exit State Value}
    {next : Value → EStateM Exit State Result}
    {last : Result → State → Prop} (first : Triple pre program post exit)
    (rest : ∀ value, Triple (post value) (next value) last exit) :
    Triple pre (program >>= next) last exit := by
  intro state holds
  have reached := first state holds
  change match EStateM.bind program next state with
    | .ok value reached => last value reached
    | .error _ reached => exit reached
  unfold EStateM.bind
  cases outcome : program state with
  | ok value middle =>
      rw [outcome] at reached
      exact rest value middle reached
  | error reason middle =>
      rw [outcome] at reached
      exact reached

theorem weaken {stronger : State → Prop} {program : EStateM Exit State Value}
    {weaker : Value → State → Prop} {weakerExit : State → Prop}
    (triple : Triple pre program post exit)
    (before : ∀ state, stronger state → pre state)
    (after : ∀ value state, post value state → weaker value state)
    (left : ∀ state, exit state → weakerExit state) :
    Triple stronger program weaker weakerExit := by
  intro state holds
  have reached := triple state (before state holds)
  cases outcome : program state with
  | ok value middle =>
      rw [outcome] at reached
      exact after value middle reached
  | error reason middle =>
      rw [outcome] at reached
      exact left middle reached

/-- A fact that no state changes may be assumed. -/
theorem assume {fact : Prop} {program : EStateM Exit State Value}
    (triple : fact → Triple pre program post exit) :
    Triple (fun state => fact ∧ pre state) program post exit :=
  fun state holds => triple holds.1 state holds.2

/-- A triple whose two outcomes agree bounds the final state. -/
theorem final {program : EStateM Exit State Value} {reach : State → Prop}
    (triple : Triple pre program (fun _ => reach) reach) {state : State}
    (holds : pre state) : reach (finalState program state) := by
  have reached := triple state holds
  unfold finalState
  cases outcome : program state with
  | ok value middle =>
      rw [outcome] at reached
      exact reached
  | error reason middle =>
      rw [outcome] at reached
      exact reached

end Triple

/-- A program that returned ran its two parts. -/
theorem bind_ok {program : EStateM Exit State Value}
    {next : Value → EStateM Exit State Result} {state final : State}
    {result : Result} (returns : (program >>= next) state = .ok result final) :
    ∃ value middle, program state = .ok value middle ∧
      next value middle = .ok result final := by
  change EStateM.bind program next state = .ok result final at returns
  unfold EStateM.bind at returns
  cases outcome : program state with
  | ok value middle =>
      rw [outcome] at returns
      exact ⟨value, middle, rfl, returns⟩
  | error reason middle =>
      rw [outcome] at returns
      cases returns

end AoclDlp.Foundations.Exits
