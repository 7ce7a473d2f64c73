import AoclDlp.Foundations.Interleaving
import AoclDlp.Foundations.Transition
import Mathlib.Algebra.GroupWithZero.Nat
import Mathlib.Algebra.Order.BigOperators.Group.Finset

/-!
# Threads that meet at barriers

A team runs one program per thread.  A program is a list of segments, and
between two segments the thread waits at a barrier for the other threads of
its group.  Inside a segment the threads run in any order.  The barrier is
specified as a round barrier: a thread leaves its barrier once every thread of
the group has arrived there.

Two facts about the threads of a group carry the arguments about such programs.
Where a thread stands in a segment, its mates have run all their earlier
segments, and as long as it has an operation of the segment left, no mate has
started a later one.
-/

namespace AoclDlp.Foundations.RoundBarrier

open AoclDlp.Foundations.Interleaving
open AoclDlp.Foundations.Transition

universe u v

variable {Act : Type u}

/-- Threads with their barrier groups and their programs. -/
structure Team (Act : Type u) where
  count : Nat
  group : Nat → Nat
  program : Nat → List (List Act)

/-- The barriers that a thread has passed, and what it still has to run before
and after the next one. -/
structure Cursor (Act : Type u) where
  passed : Nat
  todo : List Act
  later : List (List Act)

/-- An operation that a thread ran in one of its segments. -/
structure Event (Act : Type u) where
  thread : Nat
  segment : Nat
  act : Act

/-- The positions of the threads, and the operations in the order in which
they ran. -/
structure State (Act : Type u) where
  cursor : Nat → Cursor Act
  log : List (Event Act)

/-- The position at the start of a program. -/
def Cursor.start : List (List Act) → Cursor Act
  | [] => ⟨0, [], []⟩
  | segment :: later => ⟨0, segment, later⟩

/-- The thread waits at a barrier. -/
def Cursor.Waits (cursor : Cursor Act) : Prop :=
  cursor.todo = [] ∧ cursor.later ≠ []

/-- The thread has arrived at the barrier behind segment `passed`. -/
def Cursor.Arrived (passed : Nat) (cursor : Cursor Act) : Prop :=
  passed < cursor.passed ∨ (cursor.passed = passed ∧ cursor.Waits)

/-- The events of a thread from segment `first` on. -/
def eventsFrom (thread : Nat) : Nat → List (List Act) → List (Event Act)
  | _, [] => []
  | first, segment :: later =>
      segment.map (fun act => ⟨thread, first, act⟩) ++
        eventsFrom thread (first + 1) later

/-- What a thread still has to run. -/
def Cursor.pending (cursor : Cursor Act) (thread : Nat) :
    List (Event Act) :=
  cursor.todo.map (fun act => ⟨thread, cursor.passed, act⟩) ++
    eventsFrom thread (cursor.passed + 1) cursor.later

/-- The operations of one thread in a log. -/
def ownLog (thread : Nat) (log : List (Event Act)) : List (Event Act) :=
  ownOps Event.thread thread log

namespace Team

variable (team : Team Act)

/-- A thread runs its next operation. -/
def runState (state : State Act) (thread : Nat) (act : Act)
    (rest : List Act) : State Act where
  cursor := Function.update state.cursor thread
    { state.cursor thread with todo := rest }
  log := state.log ++ [⟨thread, (state.cursor thread).passed, act⟩]

/-- A thread passes its next barrier. -/
def passState (state : State Act) (thread : Nat) (segment : List Act)
    (later : List (List Act)) : State Act where
  cursor := Function.update state.cursor thread
    ⟨(state.cursor thread).passed + 1, segment, later⟩
  log := state.log

inductive Step : State Act → State Act → Prop where
  | run {state : State Act} {thread : Nat} {act : Act} {rest : List Act} :
      thread < team.count →
      (state.cursor thread).todo = act :: rest →
      Step state (runState state thread act rest)
  | pass {state : State Act} {thread : Nat} {segment : List Act}
      {later : List (List Act)} :
      thread < team.count →
      (state.cursor thread).todo = [] →
      (state.cursor thread).later = segment :: later →
      (∀ other, other < team.count →
        team.group other = team.group thread →
        (state.cursor other).Arrived (state.cursor thread).passed) →
      Step state (passState state thread segment later)

/-- Every thread stands at the start of its program. -/
def initial : State Act where
  cursor thread := Cursor.start (team.program thread)
  log := []

/-- All interleavings of the team. -/
def machine : Machine (State Act) where
  Init state := state = team.initial
  Step := team.Step

/-- Every thread has run its program. -/
def Complete (state : State Act) : Prop :=
  ∀ thread, thread < team.count →
    (state.cursor thread).todo = [] ∧ (state.cursor thread).later = []

/-- Two threads of the team that meet at barriers. -/
structure Mates (thread other : Nat) : Prop where
  left : thread < team.count
  right : other < team.count
  group : team.group other = team.group thread

end Team

/-! ## Events of a program -/

theorem mem_eventsFrom {thread first : Nat} {program : List (List Act)}
    {event : Event Act} :
    event ∈ eventsFrom thread first program ↔
      event.thread = thread ∧ first ≤ event.segment ∧
        ∃ segment, program[event.segment - first]? = some segment ∧
          event.act ∈ segment := by
  induction program generalizing first with
  | nil => simp [eventsFrom]
  | cons head later ih =>
      rw [eventsFrom, List.mem_append, List.mem_map, ih]
      constructor
      · rintro (⟨act, member, rfl⟩ | ⟨own, behind, segment, found, member⟩)
        · exact ⟨rfl, le_rfl, head, by simp, member⟩
        · refine ⟨own, by omega, segment, ?_, member⟩
          rw [show event.segment - first = event.segment - (first + 1) + 1
            by omega, List.getElem?_cons_succ]
          exact found
      · rintro ⟨own, behind, segment, found, member⟩
        rcases behind.eq_or_lt with here | after
        · rw [← here, Nat.sub_self, List.getElem?_cons_zero,
            Option.some.injEq] at found
          refine Or.inl ⟨event.act, found ▸ member, ?_⟩
          rw [← own, here]
        · rw [show event.segment - first = event.segment - (first + 1) + 1
            by omega, List.getElem?_cons_succ] at found
          exact Or.inr ⟨own, after, segment, found, member⟩

/-- The operations of a program, in order. -/
theorem eventsFrom_acts (thread first : Nat) (program : List (List Act)) :
    (eventsFrom thread first program).map Event.act = program.flatten := by
  induction program generalizing first with
  | nil => rfl
  | cons head later ih =>
      rw [eventsFrom, List.map_append, List.map_map, ih, List.flatten_cons]
      exact congrArg (· ++ later.flatten) (List.map_id' head)

/-- The events of one segment of a program. -/
theorem eventsFrom_segment (thread first : Nat) (program : List (List Act))
    {index : Nat} {segment : List Act}
    (found : program[index]? = some segment) :
    (eventsFrom thread first program).filter
        (fun event => event.segment = first + index) =
      segment.map fun act => ⟨thread, first + index, act⟩ := by
  induction program generalizing first index with
  | nil => cases found
  | cons head later ih =>
      rw [eventsFrom, List.filter_append]
      cases index with
      | zero =>
          rw [List.getElem?_cons_zero, Option.some.injEq] at found
          have nothing : (eventsFrom thread (first + 1) later).filter
              (fun event => event.segment = first + 0) = [] := by
            rw [List.filter_eq_nil_iff]
            intro event member
            have behind := (mem_eventsFrom.mp member).2.1
            rw [decide_eq_true_eq]
            omega
          have all : (head.map fun act =>
              (⟨thread, first, act⟩ : Event Act)).filter
                (fun event => event.segment = first + 0) =
                  head.map fun act => ⟨thread, first, act⟩ := by
            rw [List.filter_eq_self]
            intro event member
            rcases List.mem_map.mp member with ⟨act, _, rfl⟩
            exact decide_eq_true rfl
          rw [nothing, all, List.append_nil, found]
          rfl
      | succ index =>
          rw [List.getElem?_cons_succ] at found
          have nothing : (head.map fun act =>
              (⟨thread, first, act⟩ : Event Act)).filter
                (fun event => event.segment = first + (index + 1)) = [] := by
            rw [List.filter_eq_nil_iff]
            intro event member
            rcases List.mem_map.mp member with ⟨act, _, rfl⟩
            rw [decide_eq_true_eq]
            change ¬ first = first + (index + 1)
            omega
          have place : first + 1 + index = first + (index + 1) := by omega
          rw [nothing, List.nil_append, ← place]
          exact ih (first + 1) found

theorem ownLog_append (thread : Nat) (log : List (Event Act))
    (event : Event Act) :
    ownLog thread (log ++ [event]) =
      ownLog thread log ++ if event.thread = thread then [event] else [] := by
  unfold ownLog ownOps
  rw [List.filter_append]
  congr 1
  by_cases own : event.thread = thread
  · simp [own]
  · simp [own]

theorem mem_ownLog {thread : Nat} {log : List (Event Act)}
    {event : Event Act} :
    event ∈ ownLog thread log ↔ event ∈ log ∧ event.thread = thread := by
  simp [ownLog, ownOps]

/-- A log to which one thread alone contributes. -/
theorem flatMap_ownLog {Result : Type v} {thread : Nat}
    {log : List (Event Act)} {result : Event Act → List Result}
    (others : ∀ event, event ∈ log → event.thread ≠ thread →
      result event = []) :
    log.flatMap result = (ownLog thread log).flatMap result := by
  unfold ownLog ownOps
  induction log with
  | nil => rfl
  | cons event rest ih =>
      have tail := ih fun other member =>
        others other (List.mem_cons_of_mem _ member)
      by_cases own : event.thread = thread
      · rw [List.filter_cons_of_pos (by simpa using own), List.flatMap_cons,
          List.flatMap_cons, tail]
      · rw [List.filter_cons_of_neg (by simpa using own), List.flatMap_cons,
          others event List.mem_cons_self own, List.nil_append, tail]

/-- The next operation of a thread, with its segment. -/
def Cursor.Pends (cursor : Cursor Act) (act : Act) : Prop :=
  ∃ rest, cursor.todo = act :: rest

theorem Cursor.Pends.not_waits {cursor : Cursor Act} {act : Act}
    (pends : cursor.Pends act) : ¬ cursor.Waits := by
  rcases pends with ⟨rest, todo⟩
  rintro ⟨done, -⟩
  rw [todo] at done
  cases done

theorem Cursor.pending_segment {cursor : Cursor Act} {thread : Nat}
    {event : Event Act} (member : event ∈ cursor.pending thread) :
    cursor.passed ≤ event.segment ∧
      (cursor.todo = [] → cursor.passed < event.segment) := by
  rcases List.mem_append.mp member with now | after
  · rcases List.mem_map.mp now with ⟨act, inTodo, rfl⟩
    refine ⟨le_rfl, fun done => ?_⟩
    rw [done] at inTodo
    cases inTodo
  · have behind := (mem_eventsFrom.mp after).2.1
    exact ⟨by omega, fun _ => behind⟩

/-! ## The invariant -/

namespace Team

variable {team : Team Act} {state : State Act}

/-- Threads of one group are at most one barrier apart, and the log holds what
they ran, ordered by segments within each group. -/
structure Inv (team : Team Act) (state : State Act) : Prop where
  lockstep : ∀ thread other, team.Mates thread other →
    (state.cursor other).passed < (state.cursor thread).passed →
      (state.cursor thread).passed = (state.cursor other).passed + 1 ∧
        (state.cursor other).Waits
  ledger : ∀ thread, thread < team.count →
    ownLog thread state.log ++ (state.cursor thread).pending thread =
      eventsFrom thread 0 (team.program thread)
  barriers : ∀ thread, thread < team.count →
    (state.cursor thread).passed + (state.cursor thread).later.length =
      (team.program thread).length - 1
  behind : ∀ thread, thread < team.count →
    (state.cursor thread).later =
      (team.program thread).drop ((state.cursor thread).passed + 1)
  current : ∀ thread, thread < team.count → ∀ segment,
    (team.program thread)[(state.cursor thread).passed]? = some segment →
      ∃ ran, segment = ran ++ (state.cursor thread).todo ∧
        ∀ act, act ∈ ran →
          ⟨thread, (state.cursor thread).passed, act⟩ ∈ state.log
  logged : ∀ event, event ∈ state.log → event.thread < team.count ∧
    event.segment ≤ (state.cursor event.thread).passed
  ordered : state.log.Pairwise fun earlier later =>
    team.group earlier.thread = team.group later.thread →
      earlier.segment ≤ later.segment

theorem inv_initial (team : Team Act) : team.Inv team.initial where
  lockstep := by
    intro thread other _ ahead
    have atStart (program : List (List Act)) :
        (Cursor.start program).passed = 0 := by
      cases program <;> rfl
    change (Cursor.start _).passed < (Cursor.start _).passed at ahead
    rw [atStart, atStart] at ahead
    omega
  ledger := by
    intro thread _
    change [] ++ (Cursor.start (team.program thread)).pending thread = _
    cases team.program thread <;> rfl
  barriers := by
    intro thread _
    change (Cursor.start (team.program thread)).passed +
      (Cursor.start (team.program thread)).later.length = _
    cases team.program thread with
    | nil => rfl
    | cons segment later => simp [Cursor.start]
  behind := by
    intro thread _
    change (Cursor.start (team.program thread)).later =
      (team.program thread).drop
        ((Cursor.start (team.program thread)).passed + 1)
    cases team.program thread <;> rfl
  current := by
    intro thread _
    change ∀ segment, (team.program thread)[(Cursor.start
        (team.program thread)).passed]? = some segment →
      ∃ ran, segment = ran ++ (Cursor.start (team.program thread)).todo ∧ _
    cases team.program thread with
    | nil =>
        intro segment found
        cases found
    | cons head later =>
        rintro segment ⟨⟩
        exact ⟨[], rfl, fun act member => by cases member⟩
  logged := by
    intro event member
    cases member
  ordered := List.Pairwise.nil

/-- A thread with an operation left is not behind its mates. -/
theorem Inv.passed_le (inv : team.Inv state) {thread other : Nat}
    (mates : team.Mates thread other) {act : Act}
    (pends : (state.cursor thread).Pends act) :
    (state.cursor other).passed ≤ (state.cursor thread).passed := by
  by_contra behind
  have symmetric : team.Mates other thread :=
    ⟨mates.right, mates.left, mates.group.symm⟩
  exact pends.not_waits
    (inv.lockstep other thread symmetric (Nat.lt_of_not_le behind)).2

theorem Inv.run (inv : team.Inv state) {thread : Nat} {act : Act}
    {rest : List Act} (inTeam : thread < team.count)
    (todo : (state.cursor thread).todo = act :: rest) :
    team.Inv (runState state thread act rest) where
  lockstep := by
    intro left right mates ahead
    have pends : (state.cursor thread).Pends act := ⟨rest, todo⟩
    have samePassed (other : Nat) :
        ((runState state thread act rest).cursor other).passed =
          (state.cursor other).passed := by
      by_cases own : other = thread
      · subst own
        simp [runState]
      · simp [runState, own]
    rw [samePassed, samePassed] at ahead ⊢
    have before := inv.lockstep left right mates ahead
    have apart : right ≠ thread := by
      rintro rfl
      exact pends.not_waits before.2
    refine ⟨before.1, ?_⟩
    simp only [runState, Function.update_of_ne apart]
    exact before.2
  ledger := by
    intro other inside
    have before := inv.ledger other inside
    change ownLog other (state.log ++ [_]) ++ _ = _
    rw [ownLog_append]
    by_cases own : thread = other
    · subst own
      rw [← before]
      simp [runState, Cursor.pending, todo]
    · rw [if_neg own, List.append_nil, ← before]
      simp [runState, Ne.symm own]
  barriers := by
    intro other inside
    have before := inv.barriers other inside
    by_cases own : other = thread
    · subst own
      simpa [runState] using before
    · simpa [runState, own] using before
  behind := by
    intro other inside
    have before := inv.behind other inside
    by_cases own : other = thread
    · subst own
      simpa [runState] using before
    · simpa [runState, own] using before
  current := by
    intro other inside segment found
    by_cases own : other = thread
    · subst own
      simp only [runState, Function.update_self] at found ⊢
      rcases inv.current other inside segment found with ⟨ran, shape, log⟩
      refine ⟨ran ++ [act], by rw [shape, todo]; simp, ?_⟩
      intro done member
      rcases List.mem_append.mp member with old | new
      · exact List.mem_append_left _ (log done old)
      · rw [List.mem_singleton.mp new]
        exact List.mem_append_right _ (List.mem_singleton_self _)
    · simp only [runState, Function.update_of_ne own] at found ⊢
      rcases inv.current other inside segment found with ⟨ran, shape, log⟩
      exact ⟨ran, shape, fun done member =>
        List.mem_append_left _ (log done member)⟩
  logged := by
    intro event member
    rcases List.mem_append.mp member with old | new
    · have before := inv.logged event old
      refine ⟨before.1, ?_⟩
      by_cases own : event.thread = thread
      · simpa [runState, own] using before.2
      · simpa [runState, own] using before.2
    · rw [List.mem_singleton] at new
      subst new
      exact ⟨inTeam, by simp [runState]⟩
  ordered := by
    have pends : (state.cursor thread).Pends act := ⟨rest, todo⟩
    refine List.pairwise_append.mpr
      ⟨inv.ordered, List.pairwise_singleton _ _, ?_⟩
    intro earlier member later isNew sameGroup
    rw [List.mem_singleton] at isNew
    subst isNew
    have before := inv.logged earlier member
    exact before.2.trans
      (inv.passed_le ⟨inTeam, before.1, sameGroup⟩ pends)

theorem Inv.pass (inv : team.Inv state) {thread : Nat}
    {segment : List Act} {later : List (List Act)}
    (done : (state.cursor thread).todo = [])
    (next : (state.cursor thread).later = segment :: later)
    (arrived : ∀ other, other < team.count →
      team.group other = team.group thread →
      (state.cursor other).Arrived (state.cursor thread).passed) :
    team.Inv (passState state thread segment later) where
  lockstep := by
    intro left right mates ahead
    by_cases leader : left = thread
    · subst leader
      by_cases same : right = left
      · subst same
        exact absurd ahead (lt_irrefl _)
      · simp only [passState, Function.update_self,
          Function.update_of_ne same] at ahead ⊢
        rcases arrived right mates.right mates.group with past | ⟨here, waits⟩
        · omega
        · exact ⟨by omega, waits⟩
    · by_cases same : right = thread
      · subst same
        simp only [passState, Function.update_self,
          Function.update_of_ne leader] at ahead
        have before := inv.lockstep left right mates (by omega)
        omega
      · simp only [passState, Function.update_of_ne leader,
          Function.update_of_ne same] at ahead ⊢
        exact inv.lockstep left right mates ahead
  ledger := by
    intro other inside
    have before := inv.ledger other inside
    change ownLog other state.log ++ _ = _
    rw [← before]
    by_cases own : other = thread
    · subst own
      simp [passState, Cursor.pending, done, next, eventsFrom]
    · simp [passState, own]
  barriers := by
    intro other inside
    have before := inv.barriers other inside
    by_cases own : other = thread
    · subst own
      rw [next, List.length_cons] at before
      simp only [passState, Function.update_self]
      omega
    · simpa [passState, own] using before
  behind := by
    intro other inside
    have before := inv.behind other inside
    by_cases own : other = thread
    · subst own
      rw [next] at before
      simp only [passState, Function.update_self]
      rw [← List.tail_drop, ← before, List.tail_cons]
    · simpa [passState, own] using before
  current := by
    intro other inside found shape
    by_cases own : other = thread
    · subst own
      have before := inv.behind other inside
      simp only [passState, Function.update_self] at shape ⊢
      have head : (team.program other)[(state.cursor other).passed + 1]? =
          some segment := by
        rw [← List.head?_drop, ← before, next, List.head?_cons]
      rw [head, Option.some.injEq] at shape
      exact ⟨[], shape.symm, fun act member => by cases member⟩
    · simp only [passState, Function.update_of_ne own] at shape ⊢
      exact inv.current other inside found shape
  logged := by
    intro event member
    have before := inv.logged event member
    refine ⟨before.1, ?_⟩
    by_cases own : event.thread = thread
    · rw [own] at before
      simp only [passState, own, Function.update_self]
      omega
    · simpa [passState, own] using before.2
  ordered := inv.ordered

theorem Inv.step {next : State Act} (inv : team.Inv state)
    (step : team.Step state next) : team.Inv next := by
  cases step with
  | run inTeam todo => exact inv.run inTeam todo
  | pass _ done following arrived => exact inv.pass done following arrived

/-- The invariant holds in every reachable state. -/
theorem inv_of_reachable (reachable : team.machine.Reachable state) :
    team.Inv state := by
  apply reachable.invariant team.Inv
  · rintro state rfl
    exact team.inv_initial
  · intro state next inv step
    exact inv.step step

/-! ## What a pending operation knows -/

section Pending

variable {thread other : Nat} {act : Act}

/-- A thread that has not left a segment behind has run all of it. -/
theorem Inv.ran (inv : team.Inv state) (inTeam : other < team.count)
    {event : Event Act}
    (member : event ∈ eventsFrom other 0 (team.program other))
    (past : event ∉ (state.cursor other).pending other) :
    event ∈ state.log := by
  rw [← inv.ledger other inTeam] at member
  exact (mem_ownLog.mp
    ((List.mem_append.mp member).resolve_right past)).1

/-- What a mate of a thread still has to run is not in a segment before the
one where the thread stands. -/
theorem Inv.le_pending (inv : team.Inv state)
    (mates : team.Mates thread other) {event : Event Act}
    (member : event ∈ (state.cursor other).pending other) :
    (state.cursor thread).passed ≤ event.segment := by
  have bounds := Cursor.pending_segment member
  rcases Nat.lt_or_ge (state.cursor other).passed
    (state.cursor thread).passed with behind | here
  · have lag := inv.lockstep thread other mates behind
    have after := bounds.2 lag.2.1
    omega
  · exact here.trans bounds.1

/-- Mates have run all segments before the one where a thread stands. -/
theorem Inv.ran_before (inv : team.Inv state)
    (mates : team.Mates thread other) {event : Event Act}
    (member : event ∈ eventsFrom other 0 (team.program other))
    (before : event.segment < (state.cursor thread).passed) :
    event ∈ state.log := by
  apply inv.ran mates.right member
  intro pending
  exact absurd (inv.le_pending mates pending) (Nat.not_le.mpr before)

/-- Mates have not started a segment behind the one of a pending
operation. -/
theorem Inv.segment_le (inv : team.Inv state)
    (inTeam : thread < team.count)
    (pends : (state.cursor thread).Pends act) {event : Event Act}
    (member : event ∈ state.log)
    (sameGroup : team.group event.thread = team.group thread) :
    event.segment ≤ (state.cursor thread).passed := by
  have logged := inv.logged event member
  exact logged.2.trans
    (inv.passed_le ⟨inTeam, logged.1, sameGroup⟩ pends)

/-- Pending operations of one group are in one segment. -/
theorem Inv.same_segment (inv : team.Inv state)
    (mates : team.Mates thread other) {otherAct : Act}
    (pends : (state.cursor thread).Pends act)
    (otherPends : (state.cursor other).Pends otherAct) :
    (state.cursor other).passed = (state.cursor thread).passed :=
  le_antisymm (inv.passed_le mates pends)
    (inv.passed_le ⟨mates.right, mates.left, mates.group.symm⟩ otherPends)

/-- A pending operation is an operation of the program, in the segment that
the thread runs. -/
theorem Inv.pends_mem (inv : team.Inv state) (inTeam : thread < team.count)
    (pends : (state.cursor thread).Pends act) :
    (⟨thread, (state.cursor thread).passed, act⟩ : Event Act) ∈
      eventsFrom thread 0 (team.program thread) := by
  rcases pends with ⟨rest, todo⟩
  rw [← inv.ledger thread inTeam, Cursor.pending, todo]
  simp

/-- A thread past the first operation of its segment has run it. -/
theorem Inv.first_ran (inv : team.Inv state) (inTeam : thread < team.count)
    (pends : (state.cursor thread).Pends act) {first : Act}
    {others : List Act}
    (found : (team.program thread)[(state.cursor thread).passed]? =
      some (first :: others)) (apart : act ≠ first) :
    ⟨thread, (state.cursor thread).passed, first⟩ ∈ state.log := by
  rcases pends with ⟨rest, todo⟩
  rcases inv.current thread inTeam _ found with ⟨ran, shape, logged⟩
  rw [todo] at shape
  cases ran with
  | nil =>
      rw [List.nil_append, List.cons.injEq] at shape
      exact absurd shape.1.symm apart
  | cons head tail =>
      rw [List.cons_append, List.cons.injEq] at shape
      rw [shape.1]
      exact logged head List.mem_cons_self

theorem Inv.log_mem (inv : team.Inv state) {event : Event Act}
    (member : event ∈ state.log) :
    event ∈ eventsFrom event.thread 0 (team.program event.thread) := by
  rw [← inv.ledger event.thread (inv.logged event member).1]
  exact List.mem_append_left _ (mem_ownLog.mpr ⟨member, rfl⟩)

/-- The operations of a mate in a segment before the one where a thread
stands. -/
theorem Inv.ownLog_segment (inv : team.Inv state)
    (mates : team.Mates thread other) {index : Nat} {segment : List Act}
    (behind : index < (state.cursor thread).passed)
    (found : (team.program other)[index]? = some segment) :
    (ownLog other state.log).filter (fun event => event.segment = index) =
      segment.map fun act => ⟨other, index, act⟩ := by
  have nothing : ((state.cursor other).pending other).filter
      (fun event => event.segment = index) = [] := by
    rw [List.filter_eq_nil_iff]
    intro event member
    have after := inv.le_pending mates member
    rw [decide_eq_true_eq]
    omega
  have whole := eventsFrom_segment other 0 (team.program other) found
  rw [Nat.zero_add, ← inv.ledger other mates.right, List.filter_append,
    nothing, List.append_nil] at whole
  exact whole

end Pending

/-- The operations of one group in a log. -/
def groupLog (team : Team Act) (group : Nat) (log : List (Event Act)) :
    List (Event Act) :=
  log.filter fun event => team.group event.thread = group

theorem mem_groupLog {group : Nat} {log : List (Event Act)}
    {event : Event Act} :
    event ∈ team.groupLog group log ↔
      event ∈ log ∧ team.group event.thread = group := by
  simp [groupLog]

theorem groupLog_append (group : Nat) (log : List (Event Act))
    (event : Event Act) :
    team.groupLog group (log ++ [event]) =
      team.groupLog group log ++
        if team.group event.thread = group then [event] else [] := by
  unfold groupLog
  rw [List.filter_append]
  congr 1
  by_cases own : team.group event.thread = group
  · simp [own]
  · simp [own]

/-- The operations of one thread are among those of its group. -/
theorem ownLog_groupLog (thread : Nat) (log : List (Event Act)) :
    ownLog thread (team.groupLog (team.group thread) log) =
      ownLog thread log := by
  unfold ownLog ownOps groupLog
  rw [List.filter_filter]
  apply List.filter_congr
  intro event _
  by_cases own : event.thread = thread
  · simp [own]
  · simp [own]

/-- The log of a group is ordered by segments. -/
theorem Inv.groupLog_ordered (inv : team.Inv state) (group : Nat) :
    (team.groupLog group state.log).Pairwise
      fun earlier later => earlier.segment ≤ later.segment := by
  refine (inv.ordered.filter _).imp_of_mem ?_
  intro earlier later earlierMember laterMember before
  exact before ((mem_groupLog.mp earlierMember).2.trans
    (mem_groupLog.mp laterMember).2.symm)

/-- An ordered log falls into the operations before a segment and those from
it on. -/
theorem split_at_segment {log : List (Event Act)}
    (ordered : log.Pairwise
      fun earlier later => earlier.segment ≤ later.segment) (bound : Nat) :
    log = log.filter (fun event => event.segment < bound) ++
      log.filter (fun event => ¬ event.segment < bound) := by
  induction log with
  | nil => rfl
  | cons event rest ih =>
      rcases List.pairwise_cons.mp ordered with ⟨head, tail⟩
      by_cases early : event.segment < bound
      · rw [List.filter_cons_of_pos (by simpa using early),
          List.filter_cons_of_neg (by simpa using early), List.cons_append,
          ← ih tail]
      · have nothing : rest.filter
            (fun event => event.segment < bound) = [] := by
          rw [List.filter_eq_nil_iff]
          intro other member
          have after := head other member
          simp only [decide_eq_true_eq]
          omega
        have all : rest.filter
            (fun event => ¬ event.segment < bound) = rest := by
          rw [List.filter_eq_self]
          intro other member
          have after := head other member
          simp only [decide_eq_true_eq]
          omega
        rw [List.filter_cons_of_neg (by simpa using early),
          List.filter_cons_of_pos (by simpa using early), nothing, all,
          List.nil_append]

/-- Among the operations before the next segment, those of a segment come
last. -/
theorem filter_segment_succ {log : List (Event Act)}
    (ordered : log.Pairwise
      fun earlier later => earlier.segment ≤ later.segment) (segment : Nat) :
    log.filter (fun event => event.segment < segment + 1) =
      log.filter (fun event => event.segment < segment) ++
        log.filter (fun event => event.segment = segment) := by
  refine (split_at_segment (ordered.filter _) segment).trans ?_
  rw [List.filter_filter, List.filter_filter]
  congr 1
  · apply List.filter_congr
    intro event _
    rw [Bool.eq_iff_iff]
    simp only [Bool.and_eq_true, decide_eq_true_eq]
    omega
  · apply List.filter_congr
    intro event _
    rw [Bool.eq_iff_iff]
    simp only [Bool.and_eq_true, decide_eq_true_eq]
    omega

/-! ## Every run ends -/

/-- A thread that has run its program has nothing pending. -/
theorem Inv.ownLog_complete (inv : team.Inv state)
    (complete : team.Complete state) {thread : Nat}
    (inTeam : thread < team.count) :
    ownLog thread state.log =
      eventsFrom thread 0 (team.program thread) := by
  rcases complete thread inTeam with ⟨todo, later⟩
  rw [← inv.ledger thread inTeam, Cursor.pending, todo, later]
  simp [eventsFrom]

/-- All threads of a group make the same number of barrier calls. -/
def Balanced (team : Team Act) : Prop :=
  ∀ thread other, team.Mates thread other →
    (team.program other).length = (team.program thread).length

/-- Mates that have passed as many barriers have as many left. -/
theorem Inv.later_length (inv : team.Inv state) (balanced : team.Balanced)
    {thread other : Nat} (mates : team.Mates thread other) :
    (state.cursor other).passed + (state.cursor other).later.length =
      (state.cursor thread).passed +
        (state.cursor thread).later.length := by
  rw [inv.barriers other mates.right, inv.barriers thread mates.left,
    balanced thread other mates]

/-- Threads that all stand at barriers: one of them can pass. -/
theorem Inv.exists_pass (inv : team.Inv state) (balanced : team.Balanced)
    (idle : ∀ thread, thread < team.count →
      (state.cursor thread).todo = [])
    {thread : Nat} (inTeam : thread < team.count)
    (waiting : (state.cursor thread).later ≠ []) :
    ∃ next, team.Step state next := by
  have passes (last : Nat) (inside : last < team.count)
      (left : (state.cursor last).later ≠ [])
      (least : ∀ other, team.Mates last other →
        (state.cursor last).passed ≤ (state.cursor other).passed) :
      ∃ next, team.Step state next := by
    rcases List.exists_cons_of_ne_nil left with ⟨segment, later, shape⟩
    refine ⟨_, Step.pass inside (idle last inside) shape ?_⟩
    intro other otherInside sameGroup
    have mates : team.Mates last other := ⟨inside, otherInside, sameGroup⟩
    rcases (least other mates).eq_or_lt with here | past
    · have lengths := inv.later_length balanced mates
      refine Or.inr ⟨here.symm, idle other otherInside, ?_⟩
      apply List.ne_nil_of_length_pos
      have positive := List.length_pos_iff.mpr left
      omega
    · exact Or.inl past
  by_cases least : ∀ other, team.Mates thread other →
      (state.cursor thread).passed ≤ (state.cursor other).passed
  · exact passes thread inTeam waiting least
  · push Not at least
    rcases least with ⟨other, mates, behind⟩
    have lag := inv.lockstep thread other mates behind
    apply passes other mates.right lag.2.2
    intro third thirdMates
    by_contra further
    have both : team.Mates thread third :=
      ⟨mates.left, thirdMates.right, thirdMates.group.trans mates.group⟩
    have again := inv.lockstep thread third both (by omega)
    omega

/-- No run is stuck before all threads have run their programs. -/
theorem Inv.progress (inv : team.Inv state) (balanced : team.Balanced)
    (unfinished : ¬ team.Complete state) :
    ∃ next, team.Step state next := by
  by_cases idle : ∀ thread, thread < team.count →
      (state.cursor thread).todo = []
  · unfold Complete at unfinished
    push Not at unfinished
    rcases unfinished with ⟨thread, inTeam, left⟩
    exact inv.exists_pass balanced idle inTeam
      (left (idle thread inTeam))
  · push Not at idle
    rcases idle with ⟨thread, inTeam, busy⟩
    rcases List.exists_cons_of_ne_nil busy with ⟨act, rest, shape⟩
    exact ⟨_, Step.run inTeam shape⟩

/-- The steps that a thread still has to take. -/
def stepsLeft (cursor : Cursor Act) : Nat :=
  cursor.todo.length +
    (cursor.later.map fun segment => segment.length + 1).sum

theorem stepsLeft_lt {next : State Act} (step : team.Step state next) :
    ∑ thread ∈ Finset.range team.count, stepsLeft (next.cursor thread) <
      ∑ thread ∈ Finset.range team.count,
        stepsLeft (state.cursor thread) := by
  have decreases {thread : Nat} {cursor : Cursor Act}
      (inTeam : thread < team.count)
      (less : stepsLeft cursor < stepsLeft (state.cursor thread)) :
      ∑ other ∈ Finset.range team.count,
          stepsLeft (Function.update state.cursor thread cursor other) <
        ∑ other ∈ Finset.range team.count,
          stepsLeft (state.cursor other) := by
    apply Finset.sum_lt_sum
    · intro other _
      by_cases own : other = thread
      · subst own
        rw [Function.update_self]
        exact less.le
      · rw [Function.update_of_ne own]
    · refine ⟨thread, Finset.mem_range.mpr inTeam, ?_⟩
      rw [Function.update_self]
      exact less
  cases step with
  | run inTeam todo =>
      apply decreases inTeam
      simp [stepsLeft, todo]
  | pass inTeam done next _ =>
      apply decreases inTeam
      simp [stepsLeft, done, next]

/-- No run goes on forever. -/
theorem wellFounded_step (team : Team Act) :
    WellFounded fun next state : State Act => team.Step state next :=
  Subrelation.wf (fun step => stepsLeft_lt step)
    (measure fun state : State Act =>
      ∑ thread ∈ Finset.range team.count,
        stepsLeft (state.cursor thread)).wf

/-- Every run of a balanced team can be continued until all threads have run
their programs. -/
theorem exists_complete (balanced : team.Balanced)
    (reachable : team.machine.Reachable state) :
    ∃ final, Relation.ReflTransGen team.Step state final ∧
      team.Complete final := by
  induction state using team.wellFounded_step.induction with
  | _ state ih =>
      by_cases done : team.Complete state
      · exact ⟨state, Relation.ReflTransGen.refl, done⟩
      · rcases (inv_of_reachable reachable).progress balanced done with
          ⟨next, step⟩
        rcases ih next step (reachable.step step) with
          ⟨final, steps, complete⟩
        exact ⟨final, Relation.ReflTransGen.head step steps, complete⟩

/-! ## Schedules -/

instance (cursor : Cursor Act) : Decidable cursor.Waits :=
  decidable_of_iff (cursor.todo.isEmpty = true ∧ cursor.later.isEmpty = false)
    (by simp [Cursor.Waits])

instance (passed : Nat) (cursor : Cursor Act) :
    Decidable (cursor.Arrived passed) :=
  inferInstanceAs (Decidable (_ ∨ _))

/-- A thread takes its next step, unless it has to wait. -/
def advance (team : Team Act) (state : State Act) (thread : Nat) :
    State Act :=
  if thread < team.count then
    match (state.cursor thread).todo, (state.cursor thread).later with
    | act :: rest, _ => runState state thread act rest
    | [], segment :: later =>
        if ∀ other, other < team.count →
            team.group other = team.group thread →
            (state.cursor other).Arrived (state.cursor thread).passed then
          passState state thread segment later
        else state
    | [], [] => state
  else state

theorem reachable_advance (reachable : team.machine.Reachable state)
    (thread : Nat) :
    team.machine.Reachable (team.advance state thread) := by
  unfold advance
  split
  · rename_i inTeam
    split
    · exact reachable.step (.run inTeam ‹_›)
    · split
      · exact reachable.step (.pass inTeam ‹_› ‹_› ‹_›)
      · exact reachable
    · exact reachable
  · exact reachable

/-- The threads of a list take a step each. -/
def schedule (team : Team Act) (threads : List Nat) : State Act :=
  threads.foldl team.advance team.initial

theorem reachable_schedule (team : Team Act) (threads : List Nat) :
    team.machine.Reachable (team.schedule threads) := by
  have steps (state : State Act)
      (reachable : team.machine.Reachable state) :
      team.machine.Reachable (threads.foldl team.advance state) := by
    induction threads generalizing state with
    | nil => exact reachable
    | cons thread rest ih =>
        exact ih _ (reachable_advance reachable thread)
  exact steps team.initial (.init rfl)

end Team

end AoclDlp.Foundations.RoundBarrier
