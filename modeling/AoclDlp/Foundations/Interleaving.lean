import Mathlib.Data.List.Count
import Mathlib.Data.List.Perm.Basic

/-!
# Interleavings of threads

Threads without synchronisation run their programs in any order that keeps the
order of each thread.  Such an order is a permutation of all programs.  An
assertion about what a thread still has to run, kept by the thread's own steps
and by the steps of the other threads, holds whenever the thread takes a step.
-/

namespace AoclDlp.Foundations.Interleaving

universe u v

variable {Op : Type u} {State : Type v} (thread : Op → Nat)

/-- The operations of one thread, in order. -/
def ownOps (tid : Nat) (ops : List Op) : List Op :=
  ops.filter fun op => thread op = tid

/-- An order of the operations that keeps the order of every thread. -/
structure Interleaved (programs : List Op) where
  order : List Op
  inOrder : ∀ tid, ownOps thread tid order = ownOps thread tid programs

/-- The threads one after the other. -/
def Interleaved.sequential (programs : List Op) :
    Interleaved thread programs :=
  ⟨programs, fun _ => rfl⟩

variable {thread}

theorem ownOps_cons_self (op : Op) (rest : List Op) :
    ownOps thread (thread op) (op :: rest) =
      op :: ownOps thread (thread op) rest :=
  List.filter_cons_of_pos (decide_eq_true rfl)

theorem ownOps_cons_other {tid : Nat} {op : Op} (other : thread op ≠ tid)
    (rest : List Op) :
    ownOps thread tid (op :: rest) = ownOps thread tid rest :=
  List.filter_cons_of_neg (by simpa using other)

/-- The operations of a thread among the programs of all threads. -/
theorem ownOps_programs {program : Nat → List Op} {count : Nat}
    (own : ∀ tid, tid < count → ∀ op, op ∈ program tid → thread op = tid)
    (tid : Nat) :
    ownOps thread tid ((List.range count).flatMap program) =
      if tid < count then program tid else [] := by
  induction count with
  | zero => rfl
  | succ count ih =>
      have last : ownOps thread tid (program count) =
          if count = tid then program count else [] := by
        by_cases same : count = tid
        · rw [if_pos same, ownOps, List.filter_eq_self]
          intro op member
          rw [decide_eq_true_eq, own count (Nat.lt_succ_self count) op member,
            same]
        · rw [if_neg same, ownOps, List.filter_eq_nil_iff]
          intro op member
          rw [decide_eq_true_eq, own count (Nat.lt_succ_self count) op member]
          exact same
      have before := ih fun other below =>
        own other (Nat.lt_succ_of_lt below)
      rw [List.range_succ, List.flatMap_append, List.flatMap_singleton,
        ownOps, List.filter_append]
      change ownOps thread tid _ ++ ownOps thread tid _ = _
      rw [before, last]
      rcases Nat.lt_trichotomy tid count with less | same | more
      · rw [if_pos less, if_neg (by omega), if_pos (by omega), List.append_nil]
      · rw [if_neg (by omega), if_pos same.symm, if_pos (by omega), same,
          List.nil_append]
      · rw [if_neg (by omega), if_neg (by omega), if_neg (by omega),
          List.nil_append]

/-- An interleaving runs every operation as often as the programs do. -/
theorem Interleaved.perm {programs : List Op}
    (interleaved : Interleaved thread programs) :
    interleaved.order.Perm programs := by
  classical
  rw [List.perm_iff_count]
  intro op
  have own (ops : List Op) :
      List.count op (ownOps thread (thread op) ops) = List.count op ops :=
    List.count_filter (decide_eq_true rfl)
  rw [← own interleaved.order, ← own programs, interleaved.inOrder]

variable {run : Op → State → State} {Ready : Nat → List Op → State → Prop}

/--
An assertion about the operations that each thread still has to run, and what
the steps establish from it.
-/
structure StepRule (thread : Op → Nat) (run : Op → State → State)
    (Ready : Nat → List Op → State → Prop)
    (Inv : List Op → State → Prop) : Prop where
  own : ∀ op rest state, Ready (thread op) (op :: rest) state →
    Ready (thread op) rest (run op state)
  other : ∀ op rest state, Ready (thread op) (op :: rest) state →
    ∀ tid ops, tid ≠ thread op → Ready tid ops state →
      Ready tid ops (run op state)
  step : ∀ op rest later state, Ready (thread op) (op :: rest) state →
    Inv (op :: later) state → Inv later (run op state)

/-- What the steps establish holds after a whole order. -/
theorem StepRule.holds {Inv : List Op → State → Prop}
    (rule : StepRule thread run Ready Inv) {order : List Op} {state : State}
    (ready : ∀ tid, Ready tid (ownOps thread tid order) state)
    (start : Inv order state) :
    Inv [] (order.foldl (fun current op => run op current) state) := by
  induction order generalizing state with
  | nil => exact start
  | cons op rest ih =>
      have mine := ready (thread op)
      rw [ownOps_cons_self] at mine
      rw [List.foldl_cons]
      apply ih
      · intro tid
        by_cases same : tid = thread op
        · rw [same]
          exact rule.own op _ state mine
        · have theirs := ready tid
          rw [ownOps_cons_other fun equal => same equal.symm] at theirs
          exact rule.other op _ state mine tid _ same theirs
      · exact rule.step op _ rest state mine start

end AoclDlp.Foundations.Interleaving
