import Mathlib.Algebra.BigOperators.Group.Finset.Basic
import Mathlib.Data.List.Range
import Mathlib.Data.Nat.Find

/-!
# Jobs that run in order until one is rejected

A batch runs numbered jobs over one flat sequence of items.  A job is attempted
at the offset behind the items of the jobs before it, reports its outcome into
a slot, and the first rejected job ends the batch.  Two jobs may report into
the same slot.

The run is described by the jobs that it reaches: the ones all of whose
predecessors were accepted.
-/

namespace AoclDlp.Foundations.Batch

universe u v

/-- Numbered jobs over a flat sequence; `attempt` takes a job and an offset. -/
structure Jobs (Code : Type u) (Result : Type v) where
  count : Nat
  size : Nat → Nat
  slot : Nat → Nat
  attempt : Nat → Nat → Except Code Result

/-- A job that was carried out, with the offset at which it started. -/
structure Handed (Result : Type v) where
  job : Nat
  first : Nat
  result : Result

/-- The state between two jobs; a slot without a code reports success. -/
structure State (Code : Type u) (Result : Type v) where
  offset : Nat
  codes : Nat → Option Code
  handed : List (Handed Result)
  stopped : Option Nat

/-- Write one code into the slots of the jobs from `first` to `count`. -/
def markFrom {Code : Type u} (slot : Nat → Nat) (first count : Nat)
    (code : Code) (codes : Nat → Option Code) : Nat → Option Code :=
  (List.range' first (count - first)).foldl
    (fun current job => Function.update current (slot job) (some code)) codes

/-! ## Marking -/

section Marking

variable {Code : Type u} {slot : Nat → Nat} {code : Code}

/-- Writing one code into a list of slots. -/
theorem foldl_mark (members : List Nat) (codes : Nat → Option Code)
    (target : Nat) :
    members.foldl
        (fun current job => Function.update current (slot job) (some code))
        codes target =
      if ∃ job ∈ members, slot job = target then some code
      else codes target := by
  induction members generalizing codes with
  | nil => simp
  | cons job rest ih =>
      rw [List.foldl_cons, ih]
      by_cases later : ∃ other ∈ rest, slot other = target
      · rcases later with ⟨other, member, same⟩
        rw [if_pos ⟨other, member, same⟩,
          if_pos ⟨other, List.mem_cons_of_mem job member, same⟩]
      · rw [if_neg later]
        by_cases same : slot job = target
        · rw [if_pos ⟨job, List.mem_cons_self, same⟩, same,
            Function.update_self]
        · rw [Function.update_of_ne (Ne.symm same), if_neg]
          rintro ⟨other, member, hits⟩
          rcases List.mem_cons.mp member with rfl | member
          · exact same hits
          · exact later ⟨other, member, hits⟩

theorem markFrom_inside {first count job : Nat}
    (codes : Nat → Option Code) (behind : first ≤ job)
    (inside : job < count) :
    markFrom slot first count code codes (slot job) = some code := by
  unfold markFrom
  rw [foldl_mark, if_pos]
  exact ⟨job, List.mem_range'_1.mpr (by omega), rfl⟩

theorem markFrom_outside {first count target : Nat}
    {codes : Nat → Option Code}
    (apart : ∀ job, first ≤ job → job < count → slot job ≠ target) :
    markFrom slot first count code codes target = codes target := by
  unfold markFrom
  rw [foldl_mark, if_neg]
  rintro ⟨job, member, same⟩
  have bounds := List.mem_range'_1.mp member
  exact apart job bounds.1 (by omega) same

end Marking

namespace Jobs

variable {Code : Type u} {Result : Type v} (jobs : Jobs Code Result)

/-- The offset behind the items of the jobs before `job`. -/
def start (job : Nat) : Nat :=
  ∑ earlier ∈ Finset.range job, jobs.size earlier

/-- The job passes at its own offset. -/
def Accepts (job : Nat) : Prop :=
  ∃ result, jobs.attempt job (jobs.start job) = .ok result

/-- Every job before `job` passes. -/
def Reaches (job : Nat) : Prop :=
  ∀ earlier < job, jobs.Accepts earlier

/-- The first job that does not pass. -/
structure Rejects (job : Nat) : Prop where
  inside : job < jobs.count
  reached : jobs.Reaches job
  refused : ¬ jobs.Accepts job

/-- One job; success is recorded before the attempt or after it. -/
def step (marksFirst : Bool) (state : State Code Result) (job : Nat) :
    State Code Result :=
  if state.stopped.isSome then state
  else
    let opened :=
      if marksFirst then
        Function.update state.codes (jobs.slot job) none
      else state.codes
    match jobs.attempt job state.offset with
    | .error code =>
        { state with
          codes := Function.update opened (jobs.slot job) (some code)
          stopped := some job }
    | .ok result =>
        { offset := state.offset + jobs.size job
          codes :=
            if marksFirst then opened
            else Function.update opened (jobs.slot job) none
          handed := state.handed ++ [⟨job, state.offset, result⟩]
          stopped := none }

/-- All jobs, until one is rejected. -/
def run (marksFirst : Bool) (codes : Nat → Option Code) :
    State Code Result :=
  (List.range jobs.count).foldl (jobs.step marksFirst) ⟨0, codes, [], none⟩

/-! ## Offsets and reached jobs -/

theorem start_succ (job : Nat) :
    jobs.start (job + 1) = jobs.start job + jobs.size job :=
  Finset.sum_range_succ jobs.size job

theorem start_mono {earlier later : Nat} (before : earlier ≤ later) :
    jobs.start earlier ≤ jobs.start later := by
  induction before with
  | refl => exact le_refl _
  | step _ ih =>
      rw [jobs.start_succ]
      exact ih.trans (Nat.le_add_right _ _)

variable {jobs}

theorem Reaches.of_le {earlier later : Nat} (reached : jobs.Reaches later)
    (before : earlier ≤ later) : jobs.Reaches earlier :=
  fun job inside => reached job (inside.trans_le before)

theorem Reaches.succ {job : Nat} (reached : jobs.Reaches job)
    (accepted : jobs.Accepts job) : jobs.Reaches (job + 1) := by
  intro earlier inside
  rcases Nat.lt_succ_iff_lt_or_eq.mp inside with before | rfl
  · exact reached earlier before
  · exact accepted

theorem Rejects.not_reaches {job later : Nat} (rejected : jobs.Rejects job)
    (after : job < later) : ¬ jobs.Reaches later :=
  fun reached => rejected.refused (reached job after)

/-- A job that is not reached stands behind the rejected one. -/
theorem exists_rejects {later : Nat} (bounded : later ≤ jobs.count)
    (missed : ¬ jobs.Reaches later) :
    ∃ rejected < later, jobs.Rejects rejected := by
  classical
  unfold Reaches at missed
  push Not at missed
  have least := Nat.find_spec missed
  refine ⟨Nat.find missed, least.1, least.1.trans_le bounded, ?_, least.2⟩
  intro earlier before
  by_contra refused
  exact Nat.find_min missed before ⟨before.trans least.1, refused⟩

theorem Rejects.unique {left right : Nat} (first : jobs.Rejects left)
    (second : jobs.Rejects right) : left = right := by
  rcases lt_trichotomy left right with before | same | after
  · exact absurd (second.reached left before) first.refused
  · exact same
  · exact absurd (first.reached right after) second.refused

/-! ## The invariant of the run -/

variable (jobs)

/-- The codes once the first `passed` jobs have passed. -/
def marked (codes : Nat → Option Code) : Nat → Nat → Option Code
  | 0 => codes
  | passed + 1 =>
      Function.update (marked codes passed) (jobs.slot passed) none

/-- The handed jobs are the first `passed` ones, each at its own offset. -/
structure HandsFirst (passed : Nat) (handed : List (Handed Result)) :
    Prop where
  jobs_eq : handed.map Handed.job = List.range passed
  first_eq : ∀ entry ∈ handed, entry.first = jobs.start entry.job
  attempted : ∀ entry ∈ handed,
    jobs.attempt entry.job entry.first = .ok entry.result

/-- What a run has done behind its first `done` jobs. -/
inductive Ran (codes : Nat → Option Code) (done : Nat) :
    State Code Result → Prop where
  | running {handed : List (Handed Result)} (reached : jobs.Reaches done)
      (hands : jobs.HandsFirst done handed) :
      Ran codes done ⟨jobs.start done, jobs.marked codes done, handed, none⟩
  | halted {handed : List (Handed Result)} {job : Nat} {code : Code}
      (before : job < done) (reached : jobs.Reaches job)
      (fails : jobs.attempt job (jobs.start job) = .error code)
      (hands : jobs.HandsFirst job handed) :
      Ran codes done
        ⟨jobs.start job,
          Function.update (jobs.marked codes job) (jobs.slot job)
            (some code),
          handed, some job⟩

variable {jobs}

theorem HandsFirst.snoc {passed : Nat} {handed : List (Handed Result)}
    {result : Result} (hands : jobs.HandsFirst passed handed)
    (passes : jobs.attempt passed (jobs.start passed) = .ok result) :
    jobs.HandsFirst (passed + 1)
      (handed ++ [⟨passed, jobs.start passed, result⟩]) := by
  refine ⟨?_, ?_, ?_⟩
  · rw [List.map_append, hands.jobs_eq, List.range_succ]
    rfl
  · intro entry member
    rcases List.mem_append.mp member with old | new
    · exact hands.first_eq entry old
    · rw [List.mem_singleton.mp new]
  · intro entry member
    rcases List.mem_append.mp member with old | new
    · exact hands.attempted entry old
    · rw [List.mem_singleton.mp new]
      exact passes

theorem step_running (marksFirst : Bool) (codes : Nat → Option Code)
    (handed : List (Handed Result)) (offset job : Nat) :
    jobs.step marksFirst ⟨offset, codes, handed, none⟩ job =
      match jobs.attempt job offset with
      | .error code =>
          ⟨offset, Function.update codes (jobs.slot job) (some code),
            handed, some job⟩
      | .ok result =>
          ⟨offset + jobs.size job,
            Function.update codes (jobs.slot job) none,
            handed ++ [⟨job, offset, result⟩], none⟩ := by
  unfold step
  cases jobs.attempt job offset <;> cases marksFirst <;> simp

theorem Ran.step {codes : Nat → Option Code} {done : Nat}
    {state : State Code Result} (marksFirst : Bool)
    (ran : jobs.Ran codes done state) :
    jobs.Ran codes (done + 1) (jobs.step marksFirst state done) := by
  cases ran with
  | running reached hands =>
      rw [step_running]
      cases outcome : jobs.attempt done (jobs.start done) with
      | error code =>
          exact .halted (Nat.lt_succ_self done) reached outcome hands
      | ok result =>
          dsimp only
          rw [← jobs.start_succ]
          exact .running (reached.succ ⟨result, outcome⟩)
            (hands.snoc outcome)
  | halted before reached fails hands =>
      exact .halted (before.trans (Nat.lt_succ_self done)) reached fails
        hands

theorem ran_run (jobs : Jobs Code Result) (marksFirst : Bool)
    (codes : Nat → Option Code) :
    jobs.Ran codes jobs.count (jobs.run marksFirst codes) := by
  unfold run
  induction jobs.count with
  | zero =>
      exact .running (fun _ inside => absurd inside (Nat.not_lt_zero _))
        ⟨rfl, by simp, by simp⟩
  | succ done ih =>
      rw [List.range_succ, List.foldl_append]
      exact ih.step marksFirst

/-! ## What a run reports -/

theorem marked_eq_none {codes : Nat → Option Code} {job passed : Nat}
    (before : job < passed) :
    jobs.marked codes passed (jobs.slot job) = none := by
  induction passed with
  | zero => exact absurd before (Nat.not_lt_zero _)
  | succ passed ih =>
      unfold marked
      by_cases same : jobs.slot job = jobs.slot passed
      · rw [same, Function.update_self]
      · rw [Function.update_of_ne same]
        rcases Nat.lt_succ_iff_lt_or_eq.mp before with earlier | rfl
        · exact ih earlier
        · exact absurd rfl same

theorem marked_of_untouched {codes : Nat → Option Code} {slot passed : Nat}
    (untouched : ∀ job < passed, jobs.slot job ≠ slot) :
    jobs.marked codes passed slot = codes slot := by
  induction passed with
  | zero => rfl
  | succ passed ih =>
      unfold marked
      rw [Function.update_of_ne
        (untouched passed (Nat.lt_succ_self passed)).symm]
      exact ih fun job before =>
        untouched job (before.trans (Nat.lt_succ_self passed))

variable (jobs) (marksFirst : Bool) (codes : Nat → Option Code)

theorem run_stopped {job : Nat}
    (stopped : (jobs.run marksFirst codes).stopped = some job) :
    jobs.Rejects job := by
  have ran := jobs.ran_run marksFirst codes
  cases final : jobs.run marksFirst codes
  rw [final] at ran stopped
  cases ran with
  | running => cases stopped
  | halted before reached fails =>
      cases stopped
      refine ⟨before, reached, ?_⟩
      rintro ⟨result, passes⟩
      rw [fails] at passes
      cases passes

theorem stopped_of_rejects {job : Nat} (rejected : jobs.Rejects job) :
    (jobs.run marksFirst codes).stopped = some job := by
  have ran := jobs.ran_run marksFirst codes
  cases final : jobs.run marksFirst codes
  rw [final] at ran
  cases ran with
  | running reached =>
      exact absurd reached (rejected.not_reaches rejected.inside)
  | halted =>
      have stopped := jobs.run_stopped marksFirst codes
        (congrArg State.stopped final)
      exact congrArg some (stopped.unique rejected)

/-- The handed jobs are the reached ones, an initial segment. -/
theorem run_hands :
    ∃ passed ≤ jobs.count, jobs.Reaches passed ∧
      (passed < jobs.count → ¬ jobs.Reaches (passed + 1)) ∧
      jobs.HandsFirst passed (jobs.run marksFirst codes).handed := by
  have ran := jobs.ran_run marksFirst codes
  cases final : jobs.run marksFirst codes
  rw [final] at ran
  cases ran with
  | running reached hands =>
      exact ⟨jobs.count, le_refl _, reached,
        fun inside => absurd inside (lt_irrefl _), hands⟩
  | @halted _ job _ before reached fails hands =>
      have rejected := jobs.run_stopped marksFirst codes
        (congrArg State.stopped final)
      exact ⟨job, before.le, reached,
        fun _ => rejected.not_reaches (Nat.lt_succ_self job), hands⟩

theorem run_handed_iff (job : Nat) :
    (∃ entry ∈ (jobs.run marksFirst codes).handed, entry.job = job) ↔
      job < jobs.count ∧ jobs.Reaches (job + 1) := by
  rcases jobs.run_hands marksFirst codes with
    ⟨passed, bounded, reached, ends, hands⟩
  have member : (∃ entry ∈ (jobs.run marksFirst codes).handed,
      entry.job = job) ↔ job < passed := by
    rw [← List.mem_range, ← hands.jobs_eq, List.mem_map]
  rw [member]
  refine ⟨fun inside => ⟨inside.trans_le bounded, reached.of_le inside⟩,
    ?_⟩
  rintro ⟨inside, completes⟩
  by_contra outside
  have behind : passed ≤ job := not_lt.mp outside
  exact ends (behind.trans_lt inside)
    (completes.of_le (Nat.succ_le_succ behind))

/-- The rejected job reports a code. -/
theorem run_codes_rejected {job : Nat} (rejected : jobs.Rejects job) :
    (jobs.run marksFirst codes).codes (jobs.slot job) ≠ none := by
  have ran := jobs.ran_run marksFirst codes
  have stopped := jobs.stopped_of_rejects marksFirst codes rejected
  cases final : jobs.run marksFirst codes
  rw [final] at ran stopped
  cases ran with
  | running => cases stopped
  | halted =>
      cases stopped
      dsimp only
      rw [Function.update_self]
      exact Option.some_ne_none _

/-- A completed job reports success unless the rejected one shares its
slot. -/
theorem run_codes_completed {job : Nat} (inside : job < jobs.count)
    (completes : jobs.Reaches (job + 1))
    (apart : ∀ other, jobs.Rejects other →
      jobs.slot job ≠ jobs.slot other) :
    (jobs.run marksFirst codes).codes (jobs.slot job) = none := by
  have ran := jobs.ran_run marksFirst codes
  cases final : jobs.run marksFirst codes
  rw [final] at ran
  cases ran with
  | running => exact marked_eq_none inside
  | @halted _ other _ _ _ _ hands =>
      have rejected := jobs.run_stopped marksFirst codes
        (congrArg State.stopped final)
      dsimp only
      rw [Function.update_of_ne (apart other rejected)]
      refine marked_eq_none (not_le.mp fun behind => ?_)
      exact rejected.not_reaches (Nat.lt_succ_of_le behind) completes

/-- A slot of neither a completed nor the rejected job is left alone. -/
theorem run_codes_untouched {slot : Nat}
    (skipped : ∀ job < jobs.count, jobs.Reaches (job + 1) →
      jobs.slot job ≠ slot)
    (apart : ∀ job, jobs.Rejects job → jobs.slot job ≠ slot) :
    (jobs.run marksFirst codes).codes slot = codes slot := by
  have ran := jobs.ran_run marksFirst codes
  cases final : jobs.run marksFirst codes
  rw [final] at ran
  cases ran with
  | running reached =>
      exact marked_of_untouched fun job inside =>
        skipped job inside (reached.of_le inside)
  | @halted _ other _ before reached =>
      have rejected := jobs.run_stopped marksFirst codes
        (congrArg State.stopped final)
      dsimp only
      rw [Function.update_of_ne (apart other rejected).symm]
      exact marked_of_untouched fun job inside =>
        skipped job (inside.trans before) (reached.of_le inside)

/-! ## Honest reports -/

/-- No slot is shared between a completed job and another one. -/
def Separate : Prop :=
  ∀ job < jobs.count, ∀ other < jobs.count, jobs.Reaches (job + 1) →
    ¬ jobs.Reaches (other + 1) → jobs.slot job ≠ jobs.slot other

theorem separate_of_injective (distinct : Function.Injective jobs.slot) :
    jobs.Separate := by
  intro job _ other _ completes missed same
  rw [distinct same] at completes
  exact missed completes

/--
Reports are honest exactly where no slot is shared between a completed job and
another one and no job that was not completed stays silent.
-/
theorem honest_iff (final : Nat → Option Code) (Silent : Nat → Prop)
    (completed : ∀ job < jobs.count, jobs.Reaches (job + 1) →
      (∀ other < jobs.count, ¬ jobs.Reaches (other + 1) →
        jobs.slot job ≠ jobs.slot other) → final (jobs.slot job) = none)
    (skipped : ∀ job < jobs.count, ¬ jobs.Reaches (job + 1) →
      (∀ other < jobs.count, jobs.Reaches (other + 1) →
        jobs.slot other ≠ jobs.slot job) →
      (final (jobs.slot job) = none ↔ Silent job)) :
    (∀ job < jobs.count,
        (final (jobs.slot job) = none ↔ jobs.Reaches (job + 1))) ↔
      jobs.Separate ∧
        ∀ job < jobs.count, ¬ jobs.Reaches (job + 1) → ¬ Silent job := by
  constructor
  · intro honest
    have separate : jobs.Separate := by
      intro job inside other within completes missed same
      apply missed
      rw [← honest other within, ← same, honest job inside]
      exact completes
    refine ⟨separate, fun job inside missed silent => missed ?_⟩
    rw [← honest job inside]
    exact (skipped job inside missed fun other within completes =>
      separate other within job inside completes missed).mpr silent
  · rintro ⟨separate, loud⟩ job inside
    by_cases completes : jobs.Reaches (job + 1)
    · have reports := completed job inside completes
        fun other within missed =>
          separate job inside other within completes missed
      exact ⟨fun _ => completes, fun _ => reports⟩
    · have reports := skipped job inside completes
        fun other within reached =>
          separate other within job inside reached completes
      exact ⟨fun silent =>
        absurd (reports.mp silent) (loud job inside completes),
        fun reached => absurd reached completes⟩

/-- A job whose slot came in without a code and is not the rejected one's. -/
def Silent (job : Nat) : Prop :=
  codes (jobs.slot job) = none ∧
    ∀ rejected, jobs.Rejects rejected →
      jobs.slot rejected ≠ jobs.slot job

theorem apart_of_skipped {job : Nat}
    (apart : ∀ other < jobs.count, ¬ jobs.Reaches (other + 1) →
      jobs.slot job ≠ jobs.slot other)
    (rejected : Nat) (rejects : jobs.Rejects rejected) :
    jobs.slot job ≠ jobs.slot rejected :=
  apart rejected rejects.inside
    (rejects.not_reaches (Nat.lt_succ_self rejected))

/-- A run that marks nothing outside its loop. -/
theorem run_honest_iff :
    (∀ job < jobs.count,
        ((jobs.run marksFirst codes).codes (jobs.slot job) = none ↔
          jobs.Reaches (job + 1))) ↔
      jobs.Separate ∧
        ∀ job < jobs.count, ¬ jobs.Reaches (job + 1) →
          ¬ jobs.Silent codes job := by
  refine jobs.honest_iff _ (jobs.Silent codes) ?_ ?_
  · intro job inside completes apart
    exact jobs.run_codes_completed marksFirst codes inside completes
      (jobs.apart_of_skipped apart)
  · intro job inside missed apart
    constructor
    · intro reports
      have alone : ∀ rejected, jobs.Rejects rejected →
          jobs.slot rejected ≠ jobs.slot job := by
        intro rejected rejects same
        rw [← same] at reports
        exact jobs.run_codes_rejected marksFirst codes rejects reports
      rw [jobs.run_codes_untouched marksFirst codes apart alone] at reports
      exact ⟨reports, alone⟩
    · rintro ⟨incoming, alone⟩
      rw [jobs.run_codes_untouched marksFirst codes apart alone]
      exact incoming

/-- A run that marks every slot before its loop. -/
theorem run_honest_iff_marked (code : Code) :
    (∀ job < jobs.count,
        ((jobs.run marksFirst
            (markFrom jobs.slot 0 jobs.count code codes)).codes
            (jobs.slot job) = none ↔
          jobs.Reaches (job + 1))) ↔
      jobs.Separate := by
  rw [run_honest_iff]
  refine and_iff_left fun job inside _ silent => ?_
  have incoming := silent.1
  rw [markFrom_inside codes (Nat.zero_le job) inside] at incoming
  cases incoming

/-- A run that marks the slots behind the rejected job after its loop. -/
theorem run_honest_iff_markedBehind (code : Code) {first : Nat}
    (behind : ∀ rejected, jobs.Rejects rejected → first = rejected + 1)
    (complete : jobs.Reaches jobs.count → first = jobs.count) :
    (∀ job < jobs.count,
        (markFrom jobs.slot first jobs.count code
            (jobs.run marksFirst codes).codes (jobs.slot job) = none ↔
          jobs.Reaches (job + 1))) ↔
      jobs.Separate := by
  have skips : ∀ job, first ≤ job → job < jobs.count →
      ¬ jobs.Reaches (job + 1) := by
    intro job after inside reached
    by_cases all : jobs.Reaches jobs.count
    · exact absurd inside (not_lt.mpr ((complete all).symm.le.trans after))
    · rcases exists_rejects (le_refl _) all with ⟨rejected, -, rejects⟩
      rw [behind rejected rejects] at after
      exact rejects.not_reaches (Nat.lt_succ_of_lt after) reached
  refine (jobs.honest_iff _ (fun _ => False) ?_ ?_).trans
    (and_iff_left fun _ _ _ => not_false)
  · intro job inside completes apart
    rw [markFrom_outside fun other after within =>
      (apart other within (skips other after within)).symm]
    exact jobs.run_codes_completed marksFirst codes inside completes
      (jobs.apart_of_skipped apart)
  · intro job inside missed apart
    rw [iff_false]
    rcases exists_rejects (Nat.succ_le_of_lt inside) missed with
      ⟨rejected, before, rejects⟩
    by_cases marked : ∃ other, first ≤ other ∧ other < jobs.count ∧
        jobs.slot other = jobs.slot job
    · rcases marked with ⟨other, after, within, same⟩
      rw [← same, markFrom_inside _ after within]
      exact Option.some_ne_none code
    · push Not at marked
      rw [markFrom_outside marked]
      rcases Nat.lt_succ_iff_lt_or_eq.mp before with earlier | rfl
      · have after : first ≤ job := by
          rw [behind rejected rejects]
          exact earlier
        exact absurd rfl (marked job after inside)
      · exact jobs.run_codes_rejected marksFirst codes rejects

end Jobs

end AoclDlp.Foundations.Batch
