import AoclDlp.Foundations.Transition
import Mathlib.Data.Fintype.Card

/-!
# The sense-reversing barrier

`dlp_atomic_barrier` is executed by the `ic` threads of one `jc` group on a
shared communicator.  Every atomic access is one step of the model: the load
of the sense, the increment of the arrival counter, the reset of the counter,
the flip of the sense and each load of the spin loop.  A participant may call
the barrier again as soon as its previous call has returned, so a fast
participant can be one round ahead of the others.

The invariant is indexed by the number of completed flips.  A participant
either takes part in the current round or still spins on the sense of the
previous one.
-/

namespace AoclDlp.Threading.Barrier

open AoclDlp.Foundations.Transition

/-- `dlp_task_comm_t` without the broadcast pointer. -/
structure DlpTaskComm where
  nThreads : Nat
  barrierSense : Nat
  barrierThreadsArrived : Nat
  deriving DecidableEq, Repr

/-- `dlp_task_comm_init`. -/
def dlpTaskCommInit (nThreads : Nat) : DlpTaskComm where
  nThreads := nThreads
  barrierSense := 0
  barrierThreadsArrived := 0

/-- Program points of `dlp_atomic_barrier` between two shared accesses. -/
inductive Phase where
  | outside
  | loadSense
  | increment (origSense : Nat)
  | reset
  | flip
  | spin (origSense : Nat)
  deriving DecidableEq, Repr

/-- One participant: its program point and its calls so far. -/
structure Participant where
  phase : Phase
  entered : Nat
  returned : Nat
  deriving DecidableEq, Repr

/-- The next shared access of one participant in `dlp_atomic_barrier`. -/
def dlpAtomicBarrierStep
    (comm : DlpTaskComm) (caller : Participant) :
    DlpTaskComm × Participant :=
  match caller.phase with
  | .outside =>
      if comm.nThreads = 1 then
        (comm, ⟨.outside, caller.entered + 1, caller.returned + 1⟩)
      else
        (comm, ⟨.loadSense, caller.entered + 1, caller.returned⟩)
  | .loadSense =>
      (comm, { caller with phase := .increment comm.barrierSense })
  | .increment origSense =>
      let myThreadsArrived := comm.barrierThreadsArrived + 1
      ({ comm with barrierThreadsArrived := myThreadsArrived },
        { caller with
          phase :=
            if myThreadsArrived = comm.nThreads then .reset
            else .spin origSense })
  | .reset =>
      ({ comm with barrierThreadsArrived := 0 },
        { caller with phase := .flip })
  | .flip =>
      ({ comm with barrierSense := comm.barrierSense ^^^ 1 },
        ⟨.outside, caller.entered, caller.returned + 1⟩)
  | .spin origSense =>
      if comm.barrierSense = origSense then
        (comm, caller)
      else
        (comm, ⟨.outside, caller.entered, caller.returned + 1⟩)

/-- A communicator shared by `count` participants. -/
structure State (count : Nat) where
  comm : DlpTaskComm
  callers : Fin count → Participant

/-- One participant performs its next shared access. -/
def advance {count : Nat} (caller : Fin count) (state : State count) :
    State count :=
  let result := dlpAtomicBarrierStep state.comm (state.callers caller)
  ⟨result.1, Function.update state.callers caller result.2⟩

/-- A fresh communicator that nobody has used yet. -/
def initial (count : Nat) : State count :=
  ⟨dlpTaskCommInit count, fun _ => ⟨.outside, 0, 0⟩⟩

/-- Arbitrary interleavings of `count` participants. -/
def machine (count : Nat) : Machine (State count) :=
  Machine.ofActions (initial count) advance

/-! ## The round invariant -/

/-- What a participant can be doing while `round` flips have happened. -/
def Follows (round : Nat) (caller : Participant) : Prop :=
  match caller.phase with
  | .outside => caller.entered = round ∧ caller.returned = round
  | .loadSense | .reset | .flip =>
      caller.entered = round + 1 ∧ caller.returned = round
  | .increment origSense =>
      origSense = round % 2 ∧
        caller.entered = round + 1 ∧ caller.returned = round
  | .spin origSense =>
      (origSense = round % 2 ∧
        caller.entered = round + 1 ∧ caller.returned = round) ∨
      (origSense = (round + 1) % 2 ∧
        caller.entered = round ∧ caller.returned + 1 = round)

/-- The participant is the last arriver of the current round. -/
def Closing (caller : Participant) : Prop :=
  caller.phase = .reset ∨ caller.phase = .flip

/-- Participants that arrived in the current round and wait for its flip. -/
def waiting {count : Nat} (round : Nat) (callers : Fin count → Participant) :
    Finset (Fin count) :=
  Finset.univ.filter fun caller =>
    (callers caller).phase = .spin (round % 2)

/-- The round is open: arrivals are counted and the last one is missing. -/
structure Open {count : Nat} (round : Nat) (state : State count) :
    Prop where
  noCloser : ∀ caller, ¬ Closing (state.callers caller)
  arrived :
    state.comm.barrierThreadsArrived = (waiting round state.callers).card
  missing : state.comm.barrierThreadsArrived < count

/-- The round is closing: all the others wait for the last arriver. -/
structure Closed {count : Nat} (round : Nat) (closer : Fin count)
    (state : State count) : Prop where
  others : ∀ caller, caller ≠ closer →
    (state.callers caller).phase = .spin (round % 2)
  arrived :
    ((state.callers closer).phase = .reset ∧
      state.comm.barrierThreadsArrived = count) ∨
    ((state.callers closer).phase = .flip ∧
      state.comm.barrierThreadsArrived = 0)

/-- The barrier invariant after `round` flips of the sense. -/
structure Inv {count : Nat} (round : Nat) (state : State count) :
    Prop where
  nThreads : state.comm.nThreads = count
  sense : state.comm.barrierSense = round % 2
  follows : ∀ caller, Follows round (state.callers caller)
  progress : Open round state ∨ ∃ closer, Closed round closer state

theorem parity_xor_one (round : Nat) :
    round % 2 ^^^ 1 = (round + 1) % 2 := by
  rcases Nat.mod_two_eq_zero_or_one round with even | odd
  · rw [even, show (round + 1) % 2 = 1 by omega]
    rfl
  · rw [odd, show (round + 1) % 2 = 0 by omega]
    rfl

theorem parity_ne_succ (round : Nat) : round % 2 ≠ (round + 1) % 2 := by
  omega

@[simp]
theorem advance_comm {count : Nat} (caller : Fin count)
    (state : State count) :
    (advance caller state).comm =
      (dlpAtomicBarrierStep state.comm (state.callers caller)).1 :=
  rfl

@[simp]
theorem advance_callers_self {count : Nat} (caller : Fin count)
    (state : State count) :
    (advance caller state).callers caller =
      (dlpAtomicBarrierStep state.comm (state.callers caller)).2 := by
  simp [advance]

theorem advance_callers_other {count : Nat} {caller other : Fin count}
    (state : State count) (different : other ≠ caller) :
    (advance caller state).callers other = state.callers other := by
  simp [advance, different]

theorem waiting_advance_of_not_waiting {count : Nat} {round : Nat}
    {caller : Fin count} {state : State count}
    (before : (state.callers caller).phase ≠ .spin (round % 2))
    (after : ((advance caller state).callers caller).phase ≠
      .spin (round % 2)) :
    waiting round (advance caller state).callers =
      waiting round state.callers := by
  ext other
  by_cases same : other = caller
  · subst same
    simp only [waiting, Finset.mem_filter, before, after]
  · simp only [waiting, Finset.mem_filter,
      advance_callers_other state same]

theorem waiting_advance_of_arrival {count : Nat} {round : Nat}
    {caller : Fin count} {state : State count}
    (after : ((advance caller state).callers caller).phase =
      .spin (round % 2)) :
    waiting round (advance caller state).callers =
      insert caller (waiting round state.callers) := by
  ext other
  by_cases same : other = caller
  · subst same
    simp only [waiting, Finset.mem_filter, Finset.mem_univ, after,
      Finset.mem_insert, true_or, and_self]
  · simp only [waiting, Finset.mem_filter, Finset.mem_insert, same,
      false_or, advance_callers_other state same]

theorem follows_advance {count : Nat} {round : Nat} {caller : Fin count}
    {state : State count}
    (follows : ∀ other, Follows round (state.callers other))
    (moved : Follows round ((advance caller state).callers caller))
    (other : Fin count) :
    Follows round ((advance caller state).callers other) := by
  by_cases same : other = caller
  · subst same
    exact moved
  · rw [advance_callers_other state same]
    exact follows other

/-! ## One shared access preserves the invariant -/

/-- A step that neither arrives nor closes keeps an open round open. -/
theorem Inv.quiet {count : Nat} {round : Nat} {state : State count}
    {caller : Fin count} (inv : Inv round state) (isOpen : Open round state)
    (sameComm : (advance caller state).comm = state.comm)
    (before : (state.callers caller).phase ≠ .spin (round % 2))
    (after : ((advance caller state).callers caller).phase ≠
      .spin (round % 2))
    (notClosing : ¬ Closing ((advance caller state).callers caller))
    (moved : Follows round ((advance caller state).callers caller)) :
    Inv round (advance caller state) where
  nThreads := by rw [sameComm]; exact inv.nThreads
  sense := by rw [sameComm]; exact inv.sense
  follows := follows_advance inv.follows moved
  progress := by
    refine Or.inl ⟨?_, ?_, ?_⟩
    · intro other
      by_cases same : other = caller
      · subst same
        exact notClosing
      · rw [advance_callers_other state same]
        exact isOpen.noCloser other
    · rw [sameComm, waiting_advance_of_not_waiting before after]
      exact isOpen.arrived
    · rw [sameComm]
      exact isOpen.missing

/-- A participant whose awaited sense has not flipped does not move. -/
theorem advance_eq_self_of_spin {count : Nat} {state : State count}
    {caller : Fin count}
    (spinning :
      (state.callers caller).phase = .spin state.comm.barrierSense) :
    advance caller state = state := by
  have unchanged :
      dlpAtomicBarrierStep state.comm (state.callers caller) =
        (state.comm, state.callers caller) := by
    simp [dlpAtomicBarrierStep, spinning]
  simp [advance, unchanged]

theorem Inv.enter {count : Nat} {round : Nat} {state : State count}
    {caller : Fin count} (team : 2 ≤ count) (inv : Inv round state)
    (isOpen : Open round state)
    (phase : (state.callers caller).phase = .outside) :
    Inv round (advance caller state) := by
  have several : state.comm.nThreads ≠ 1 := by
    rw [inv.nThreads]
    omega
  have moved : dlpAtomicBarrierStep state.comm (state.callers caller) =
      (state.comm, ⟨.loadSense, (state.callers caller).entered + 1,
        (state.callers caller).returned⟩) := by
    simp [dlpAtomicBarrierStep, phase, several]
  have counts := inv.follows caller
  simp only [Follows, phase] at counts
  apply inv.quiet isOpen
  · simp [moved]
  · simp [phase]
  · simp [moved]
  · simp [moved, Closing]
  · simp [moved, Follows, counts]

theorem Inv.loadSense {count : Nat} {round : Nat} {state : State count}
    {caller : Fin count} (inv : Inv round state)
    (isOpen : Open round state)
    (phase : (state.callers caller).phase = .loadSense) :
    Inv round (advance caller state) := by
  have moved : dlpAtomicBarrierStep state.comm (state.callers caller) =
      (state.comm, ⟨.increment state.comm.barrierSense,
        (state.callers caller).entered,
        (state.callers caller).returned⟩) := by
    simp [dlpAtomicBarrierStep, phase]
  have counts := inv.follows caller
  simp only [Follows, phase] at counts
  apply inv.quiet isOpen
  · simp [moved]
  · simp [phase]
  · simp [moved]
  · simp [moved, Closing]
  · simp [moved, Follows, counts, inv.sense]

/-- A participant that still waits for the previous flip leaves. -/
theorem Inv.leave {count : Nat} {round : Nat} {state : State count}
    {caller : Fin count} {origSense : Nat} (inv : Inv round state)
    (isOpen : Open round state)
    (phase : (state.callers caller).phase = .spin origSense)
    (flipped : state.comm.barrierSense ≠ origSense) :
    Inv round (advance caller state) := by
  have moved : dlpAtomicBarrierStep state.comm (state.callers caller) =
      (state.comm, ⟨.outside, (state.callers caller).entered,
        (state.callers caller).returned + 1⟩) := by
    simp [dlpAtomicBarrierStep, phase, flipped]
  have stale : origSense ≠ round % 2 := by
    rw [← inv.sense]
    exact flipped.symm
  have counts := inv.follows caller
  simp only [Follows, phase, stale, false_and, false_or] at counts
  apply inv.quiet isOpen
  · simp [moved]
  · simp [phase, stale]
  · simp [moved]
  · simp [moved, Closing]
  · simp [moved, Follows, counts]

theorem not_mem_waiting {count : Nat} {round : Nat} {state : State count}
    {caller : Fin count}
    (elsewhere : (state.callers caller).phase ≠ .spin (round % 2)) :
    caller ∉ waiting round state.callers := by
  simp [waiting, elsewhere]

/-- All the others wait once only one arrival is missing. -/
theorem others_waiting_of_last {count : Nat} {round : Nat}
    {state : State count} {caller : Fin count}
    (elsewhere : (state.callers caller).phase ≠ .spin (round % 2))
    (last : (waiting round state.callers).card + 1 = count)
    (other : Fin count) (different : other ≠ caller) :
    (state.callers other).phase = .spin (round % 2) := by
  have full : insert caller (waiting round state.callers) =
      Finset.univ := by
    rw [← Finset.card_eq_iff_eq_univ,
      Finset.card_insert_of_notMem (not_mem_waiting elsewhere), last,
      Fintype.card_fin]
  have member : other ∈ insert caller (waiting round state.callers) := by
    rw [full]
    exact Finset.mem_univ other
  have waits := (Finset.mem_insert.mp member).resolve_left different
  exact (Finset.mem_filter.mp waits).2

theorem Inv.increment {count : Nat} {round : Nat} {state : State count}
    {caller : Fin count} {origSense : Nat} (inv : Inv round state)
    (isOpen : Open round state)
    (phase : (state.callers caller).phase = .increment origSense) :
    Inv round (advance caller state) := by
  have counts := inv.follows caller
  simp only [Follows, phase] at counts
  rcases counts with ⟨rfl, entered, returned⟩
  have elsewhere : (state.callers caller).phase ≠ .spin (round % 2) := by
    simp [phase]
  by_cases last : state.comm.barrierThreadsArrived + 1 = count
  · have moved : dlpAtomicBarrierStep state.comm (state.callers caller) =
        ({ state.comm with
            barrierThreadsArrived :=
              state.comm.barrierThreadsArrived + 1 },
          { state.callers caller with phase := .reset }) := by
      simp [dlpAtomicBarrierStep, phase, inv.nThreads, last]
    have arrivals := last
    rw [isOpen.arrived] at arrivals
    refine ⟨?_, ?_, follows_advance inv.follows ?_,
      Or.inr ⟨caller, ?_, Or.inl ⟨?_, ?_⟩⟩⟩
    · simp [moved, inv.nThreads]
    · simp [moved, inv.sense]
    · simp [moved, Follows, entered, returned]
    · intro other different
      rw [advance_callers_other state different]
      exact others_waiting_of_last elsewhere arrivals other different
    · simp [moved]
    · simp [moved, last]
  · have moved : dlpAtomicBarrierStep state.comm (state.callers caller) =
        ({ state.comm with
            barrierThreadsArrived :=
              state.comm.barrierThreadsArrived + 1 },
          { state.callers caller with phase := .spin (round % 2) }) := by
      simp [dlpAtomicBarrierStep, phase, inv.nThreads, last]
    refine ⟨?_, ?_, follows_advance inv.follows ?_, Or.inl ⟨?_, ?_, ?_⟩⟩
    · simp [moved, inv.nThreads]
    · simp [moved, inv.sense]
    · simp [moved, Follows, entered, returned]
    · intro other
      by_cases same : other = caller
      · subst same
        simp [moved, Closing]
      · rw [advance_callers_other state same]
        exact isOpen.noCloser other
    · rw [waiting_advance_of_arrival (by simp [moved]),
        Finset.card_insert_of_notMem (not_mem_waiting elsewhere),
        ← isOpen.arrived]
      simp [moved]
    · have bound := isOpen.missing
      simp only [advance_comm, moved]
      omega

theorem Inv.reset {count : Nat} {round : Nat} {state : State count}
    {closer : Fin count} (inv : Inv round state)
    (closed : Closed round closer state)
    (phase : (state.callers closer).phase = .reset) :
    Inv round (advance closer state) := by
  have moved : dlpAtomicBarrierStep state.comm (state.callers closer) =
      ({ state.comm with barrierThreadsArrived := 0 },
        { state.callers closer with phase := .flip }) := by
    simp [dlpAtomicBarrierStep, phase]
  have counts := inv.follows closer
  simp only [Follows, phase] at counts
  refine ⟨?_, ?_, follows_advance inv.follows ?_,
    Or.inr ⟨closer, ?_, Or.inr ⟨?_, ?_⟩⟩⟩
  · simp [moved, inv.nThreads]
  · simp [moved, inv.sense]
  · simp [moved, Follows, counts]
  · intro other different
    rw [advance_callers_other state different]
    exact closed.others other different
  · simp [moved]
  · simp [moved]

/-- The flip starts the next round with nobody counted. -/
theorem Inv.flip {count : Nat} {round : Nat} {state : State count}
    {closer : Fin count} (inv : Inv round state)
    (closed : Closed round closer state)
    (phase : (state.callers closer).phase = .flip) :
    Inv (round + 1) (advance closer state) := by
  have moved : dlpAtomicBarrierStep state.comm (state.callers closer) =
      ({ state.comm with barrierSense := state.comm.barrierSense ^^^ 1 },
        ⟨.outside, (state.callers closer).entered,
          (state.callers closer).returned + 1⟩) := by
    simp [dlpAtomicBarrierStep, phase]
  have counts := inv.follows closer
  simp only [Follows, phase] at counts
  have empty : state.comm.barrierThreadsArrived = 0 := by
    rcases closed.arrived with ⟨resetting, _⟩ | ⟨_, zero⟩
    · rw [phase] at resetting
      cases resetting
    · exact zero
  refine ⟨?_, ?_, ?_, Or.inl ⟨?_, ?_, ?_⟩⟩
  · simp [moved, inv.nThreads]
  · simp [moved, inv.sense, parity_xor_one]
  · intro other
    by_cases same : other = closer
    · subst same
      simp [moved, Follows, counts]
    · have waits := closed.others other same
      have otherCounts := inv.follows other
      simp only [Follows, waits, parity_ne_succ round, true_and, false_and,
        or_false] at otherCounts
      rw [advance_callers_other state same]
      simp only [Follows, waits]
      refine Or.inr ⟨by omega, otherCounts.1, by omega⟩
  · intro other
    by_cases same : other = closer
    · subst same
      simp [moved, Closing]
    · rw [advance_callers_other state same]
      simp [Closing, closed.others other same]
  · have nobody : waiting (round + 1) (advance closer state).callers = ∅ := by
      apply Finset.filter_eq_empty_iff.mpr
      intro other _
      by_cases same : other = closer
      · subst same
        simp [moved]
      · rw [advance_callers_other state same, closed.others other same]
        simpa using parity_ne_succ round
    simp [moved, nobody, empty]
  · simp only [advance_comm, moved, empty]
    exact Nat.zero_lt_of_lt closer.isLt

/-- Every shared access preserves the invariant, possibly one round later. -/
theorem Inv.advance {count : Nat} {round : Nat} {state : State count}
    (team : 2 ≤ count) (inv : Inv round state) (caller : Fin count) :
    ∃ next, Inv next (advance caller state) := by
  rcases inv.progress with isOpen | ⟨closer, closed⟩
  · cases phase : (state.callers caller).phase with
    | outside => exact ⟨round, inv.enter team isOpen phase⟩
    | loadSense => exact ⟨round, inv.loadSense isOpen phase⟩
    | increment origSense => exact ⟨round, inv.increment isOpen phase⟩
    | reset => exact absurd (Or.inl phase) (isOpen.noCloser caller)
    | flip => exact absurd (Or.inr phase) (isOpen.noCloser caller)
    | spin origSense =>
        by_cases flipped : state.comm.barrierSense = origSense
        · rw [← flipped] at phase
          rw [advance_eq_self_of_spin phase]
          exact ⟨round, inv⟩
        · exact ⟨round, inv.leave isOpen phase flipped⟩
  · by_cases last : caller = closer
    · subst last
      rcases closed.arrived with ⟨phase, _⟩ | ⟨phase, _⟩
      · exact ⟨round, inv.reset closed phase⟩
      · exact ⟨round + 1, inv.flip closed phase⟩
    · have waits := closed.others caller last
      rw [← inv.sense] at waits
      rw [advance_eq_self_of_spin waits]
      exact ⟨round, inv⟩

theorem inv_init (count : Nat) (team : 2 ≤ count) :
    Inv 0 (initial count) where
  nThreads := rfl
  sense := rfl
  follows := by
    intro caller
    simp [initial, Follows]
  progress := by
    refine Or.inl ⟨?_, ?_, ?_⟩
    · intro caller
      simp [initial, Closing]
    · simp [initial, dlpTaskCommInit, waiting]
    · change 0 < count
      omega

/-- Some round invariant holds in every reachable state. -/
theorem exists_inv_of_reachable {count : Nat} (team : 2 ≤ count)
    {state : State count} (reachable : (machine count).Reachable state) :
    ∃ round, Inv round state := by
  apply reachable.invariant fun state => ∃ round, Inv round state
  · rintro state rfl
    exact ⟨0, inv_init count team⟩
  · rintro state next ⟨round, inv⟩ ⟨caller, rfl⟩
    exact inv.advance team caller

/-! ## Safety -/

theorem Follows.returned_le {round : Nat} {caller : Participant}
    (follows : Follows round caller) : caller.returned ≤ round := by
  unfold Follows at follows
  split at follows <;> omega

theorem Follows.le_entered {round : Nat} {caller : Participant}
    (follows : Follows round caller) : round ≤ caller.entered := by
  unfold Follows at follows
  split at follows <;> omega

theorem Inv.arrived_le {count : Nat} {round : Nat} {state : State count}
    (inv : Inv round state) :
    state.comm.barrierThreadsArrived ≤ count := by
  rcases inv.progress with isOpen | ⟨closer, closed⟩
  · exact isOpen.missing.le
  · rcases closed.arrived with ⟨_, full⟩ | ⟨_, zero⟩
    · exact full.le
    · rw [zero]
      exact Nat.zero_le count

/--
In every interleaving, a participant that has returned from its `r`-th call
has seen every participant enter its `r`-th call, and the arrival counter
stays within the team.
-/
theorem barrier_safety
    {count : Nat} (team : 2 ≤ count) {state : State count}
    (reachable : (machine count).Reachable state) :
    (∀ (leaver other : Fin count) (call : Nat),
      call ≤ (state.callers leaver).returned →
        call ≤ (state.callers other).entered) ∧
    state.comm.barrierThreadsArrived ≤ count := by
  rcases exists_inv_of_reachable team reachable with ⟨round, inv⟩
  constructor
  · intro leaver other call done
    have returned := (inv.follows leaver).returned_le
    have entered := (inv.follows other).le_entered
    exact (done.trans returned).trans entered
  · exact inv.arrived_le

/--
Participant 1 closes the first round and enters its second call before
participant 0 has seen the flip.
-/
def overtaking : State 2 :=
  Machine.runActions advance (initial 2) [0, 0, 0, 1, 1, 1, 1, 1, 1, 1]

theorem barrier_safety_overtaking :
    (overtaking.callers 1).returned = 1 ∧
      (overtaking.callers 0).phase = .spin 0 ∧
      1 ≤ (overtaking.callers 0).entered ∧
      overtaking.comm.barrierThreadsArrived ≤ 2 := by
  have reachable : (machine 2).Reachable overtaking :=
    Machine.reachable_runActions (.init rfl) _
  have safety := barrier_safety (by decide) reachable
  exact ⟨by decide, by decide, safety.1 1 0 1 (by decide), safety.2⟩

/-! ## A communicator with missing threads -/

/-- A communicator for `nThreads` threads of which `count` call the
barrier. -/
def shortMachine (nThreads count : Nat) : Machine (State count) :=
  Machine.ofActions
    ⟨dlpTaskCommInit nThreads, fun _ => ⟨.outside, 0, 0⟩⟩ advance

/-- A participant in its first call, before the flip. -/
def Detained (caller : Participant) : Prop :=
  caller.returned = 0 ∧
    (caller.phase = .outside ∨ caller.phase = .loadSense ∨
      caller.phase = .increment 0 ∨ caller.phase = .spin 0)

/-- The first round stays open. -/
structure Stuck {count : Nat} (nThreads : Nat) (state : State count) :
    Prop where
  nThreads_eq : state.comm.nThreads = nThreads
  sense : state.comm.barrierSense = 0
  arrived :
    state.comm.barrierThreadsArrived = (waiting 0 state.callers).card
  detained : ∀ caller, Detained (state.callers caller)

section Short

variable {nThreads count : Nat} {state : State count} {caller : Fin count}

theorem detained_advance (stuck : Stuck nThreads state)
    (moved : Detained ((advance caller state).callers caller))
    (other : Fin count) :
    Detained ((advance caller state).callers other) := by
  by_cases same : other = caller
  · subst same
    exact moved
  · rw [advance_callers_other state same]
    exact stuck.detained other

/-- A step that does not arrive leaves the communicator alone. -/
theorem Stuck.quiet (stuck : Stuck nThreads state)
    (sameComm : (advance caller state).comm = state.comm)
    (before : (state.callers caller).phase ≠ .spin (0 % 2))
    (after : ((advance caller state).callers caller).phase ≠ .spin (0 % 2))
    (moved : Detained ((advance caller state).callers caller)) :
    Stuck nThreads (advance caller state) where
  nThreads_eq := by rw [sameComm]; exact stuck.nThreads_eq
  sense := by rw [sameComm]; exact stuck.sense
  arrived := by
    rw [sameComm, waiting_advance_of_not_waiting before after]
    exact stuck.arrived
  detained := detained_advance stuck moved

/-- With a thread missing, no arrival is the last one. -/
theorem Stuck.arrive (stuck : Stuck nThreads state)
    (short : count < nThreads)
    (phase : (state.callers caller).phase = .increment 0) :
    Stuck nThreads (advance caller state) := by
  have elsewhere : (state.callers caller).phase ≠ .spin (0 % 2) := by
    simp [phase]
  have absent := not_mem_waiting elsewhere
  have arrived := stuck.arrived
  have team : (insert caller (waiting 0 state.callers)).card ≤ count :=
    (Finset.card_le_univ _).trans_eq (Fintype.card_fin count)
  rw [Finset.card_insert_of_notMem absent] at team
  have notLast : state.comm.barrierThreadsArrived + 1 ≠ nThreads := by omega
  have returned := (stuck.detained caller).1
  have moved : dlpAtomicBarrierStep state.comm (state.callers caller) =
      ({ state.comm with
          barrierThreadsArrived := state.comm.barrierThreadsArrived + 1 },
        { state.callers caller with phase := .spin 0 }) := by
    simp [dlpAtomicBarrierStep, phase, stuck.nThreads_eq, notLast]
  refine ⟨?_, ?_, ?_, detained_advance stuck ?_⟩
  · simp [moved, stuck.nThreads_eq]
  · simp [moved, stuck.sense]
  · rw [waiting_advance_of_arrival (by simp [moved]),
      Finset.card_insert_of_notMem absent, ← arrived]
    simp [moved]
  · simp [moved, Detained, returned]

/-- Every shared access keeps the first round open. -/
theorem Stuck.advance (several : nThreads ≠ 1) (short : count < nThreads)
    (stuck : Stuck nThreads state) (caller : Fin count) :
    Stuck nThreads (advance caller state) := by
  rcases stuck.detained caller with
    ⟨returned, phase | phase | phase | phase⟩
  · have moved : dlpAtomicBarrierStep state.comm (state.callers caller) =
        (state.comm, ⟨.loadSense, (state.callers caller).entered + 1,
          (state.callers caller).returned⟩) := by
      simp [dlpAtomicBarrierStep, phase, stuck.nThreads_eq, several]
    apply stuck.quiet
    · simp [moved]
    · simp [phase]
    · simp [moved]
    · simp [moved, Detained, returned]
  · have moved : dlpAtomicBarrierStep state.comm (state.callers caller) =
        (state.comm, { state.callers caller with phase := .increment 0 }) := by
      simp [dlpAtomicBarrierStep, phase, stuck.sense]
    apply stuck.quiet
    · simp [moved]
    · simp [phase]
    · simp [moved]
    · simp [moved, Detained, returned]
  · exact stuck.arrive short phase
  · rw [advance_eq_self_of_spin (phase.trans (by rw [stuck.sense]))]
    exact stuck

/-- A barrier of which a participant is missing lets nobody return. -/
theorem short_never_returns (several : nThreads ≠ 1)
    (short : count < nThreads)
    (reachable : (shortMachine nThreads count).Reachable state)
    (caller : Fin count) : (state.callers caller).returned = 0 := by
  have stuck : Stuck nThreads state := by
    apply reachable.invariant (Stuck nThreads)
    · rintro state rfl
      refine ⟨rfl, rfl, ?_, fun caller => ⟨rfl, Or.inl rfl⟩⟩
      simp [dlpTaskCommInit, waiting]
    · rintro state next stuck ⟨caller, rfl⟩
      exact stuck.advance several short caller
  exact (stuck.detained caller).1

end Short

end AoclDlp.Threading.Barrier
