import AoclDlp.Foundations.Intervals
import Mathlib.Tactic.Ring
import Mathlib.Tactic.Linarith

/-!
# Work ids and block-aligned ranges

The 5-loop drivers give every OpenMP thread one work id in the `jc` loop and
one in the `ic` loop, and `dlp_thread_task_range` turns a work id into a
block-aligned slice of the loop's index range.  This module embeds the work-id
generation, the thread-number distributions and the range split, and proves
that the ranges of one loop are consecutive intervals.

The source computes in signed 64-bit integers.  Thread numbers, ways and
extents are nonnegative there, so the embedding uses natural numbers and the
source's test for a negative work id has no counterpart.
-/

namespace AoclDlp.Threading.TaskRange

open AoclDlp.Foundations.Intervals

/-- `dlp_gemm_thrinfo_t` without the communicator pointer. -/
structure DlpGemmThrinfo where
  nThreads : Nat
  tid : Nat
  icWays : Nat
  jcWays : Nat
  deriving DecidableEq, Repr

/-- `dlp_task_id_t`. -/
structure DlpTaskId where
  ocommId : Nat
  nWay : Nat
  workId : Nat
  deriving DecidableEq, Repr

/--
`dlp_gemm_gen_dlp_task_ids`: the pair `(thread_jc, thread_ic)`.  A missing
thread record is the single-threaded build.
-/
def dlpGemmGenDlpTaskIds :
    Option DlpGemmThrinfo → DlpTaskId × DlpTaskId
  | none => (⟨0, 1, 0⟩, ⟨0, 1, 0⟩)
  | some thread =>
      let jcWorkId := thread.tid / thread.icWays
      let icCommId := thread.tid % thread.icWays
      (⟨thread.tid, thread.jcWays, jcWorkId⟩,
        ⟨icCommId, thread.icWays, icCommId⟩)

/--
`dlp_thread_task_range`: the slice `[start, end)` of `[0, n)` that a work id
owns, in whole blocks of `bf` with the leftover at the chosen end.
-/
def dlpThreadTaskRange
    (thread : DlpTaskId) (n bf : Nat) (handleEdgeLow : Bool) : Nat × Nat :=
  let nWay := thread.nWay
  let workId := thread.workId
  if nWay ≤ workId then
    (n, n)
  else if nWay = 1 then
    (0, n)
  else
    let nBfWhole := n / bf
    let nBfLeft := n % bf
    if handleEdgeLow = false then
      let nThLo := nBfWhole % nWay
      let nBfLo :=
        if nThLo ≠ 0 then nBfWhole / nWay + 1 else nBfWhole / nWay
      let nBfHi := nBfWhole / nWay
      let sizeLo := nBfLo * bf
      let sizeHi := nBfHi * bf
      let hiStart := nThLo * sizeLo
      if workId < nThLo then
        (workId * sizeLo, (workId + 1) * sizeLo)
      else
        (hiStart + (workId - nThLo) * sizeHi,
          if workId = nWay - 1 then
            hiStart + (workId - nThLo + 1) * sizeHi + nBfLeft
          else
            hiStart + (workId - nThLo + 1) * sizeHi)
    else
      let nThHi := nBfWhole % nWay
      let nThLo := nWay - nThHi
      let nBfLo := nBfWhole / nWay
      let nBfHi :=
        if nThHi ≠ 0 then nBfWhole / nWay + 1 else nBfWhole / nWay
      let sizeLo := nBfLo * bf
      let sizeHi := nBfHi * bf
      let hiStart := nThLo * sizeLo + nBfLeft
      if workId < nThLo then
        if workId = 0 then
          (workId * sizeLo, (workId + 1) * sizeLo + nBfLeft)
        else
          (workId * sizeLo + nBfLeft, (workId + 1) * sizeLo + nBfLeft)
      else
        (hiStart + (workId - nThLo) * sizeHi,
          hiStart + (workId - nThLo + 1) * sizeHi)

/-! ## The range split as a family of boundaries -/

/-- Boundary of the low-leftover-last split before work id `way`. -/
def highEdgeCut (nWay n bf way : Nat) : Nat :=
  if way < nWay then
    (way * (n / bf / nWay) + min way (n / bf % nWay)) * bf
  else n

/-- Boundary of the leftover-first split before work id `way`. -/
def lowEdgeCut (nWay n bf way : Nat) : Nat :=
  if way = 0 then 0
  else
    (way * (n / bf / nWay) + (way - (nWay - n / bf % nWay))) * bf + n % bf

theorem blocks_mul_add_left (nWay n bf : Nat) :
    (nWay * (n / bf / nWay) + n / bf % nWay) * bf + n % bf = n := by
  rw [Nat.div_add_mod, Nat.mul_comm, Nat.div_add_mod]

theorem highEdgeCut_le_succ
    (nWay n bf way : Nat) :
    highEdgeCut nWay n bf way ≤ highEdgeCut nWay n bf (way + 1) := by
  unfold highEdgeCut
  by_cases current : way < nWay
  · by_cases following : way + 1 < nWay
    · rw [if_pos current, if_pos following]
      apply Nat.mul_le_mul_right
      have blocks :
          way * (n / bf / nWay) ≤ (way + 1) * (n / bf / nWay) :=
        Nat.mul_le_mul_right _ (Nat.le_succ way)
      omega
    · rw [if_pos current, if_neg following]
      calc
        (way * (n / bf / nWay) + min way (n / bf % nWay)) * bf ≤
            (nWay * (n / bf / nWay) + n / bf % nWay) * bf := by
          apply Nat.mul_le_mul_right
          apply Nat.add_le_add
          · exact Nat.mul_le_mul_right _ current.le
          · exact min_le_right _ _
        _ ≤ (nWay * (n / bf / nWay) + n / bf % nWay) * bf + n % bf :=
          Nat.le_add_right _ _
        _ = n := blocks_mul_add_left nWay n bf
  · rw [if_neg current, if_neg (by omega)]

theorem lowEdgeCut_le_succ
    (nWay n bf way : Nat) :
    lowEdgeCut nWay n bf way ≤ lowEdgeCut nWay n bf (way + 1) := by
  unfold lowEdgeCut
  by_cases first : way = 0
  · rw [if_pos first]
    exact Nat.zero_le _
  · rw [if_neg first, if_neg (Nat.succ_ne_zero way)]
    apply Nat.add_le_add_right
    apply Nat.mul_le_mul_right
    have blocks :
        way * (n / bf / nWay) ≤ (way + 1) * (n / bf / nWay) :=
      Nat.mul_le_mul_right _ (Nat.le_succ way)
    omega

/-- The boundaries that `dlp_thread_task_range` realises. -/
def taskCuts
    (nWay n bf : Nat) (positive : 0 < nWay) (handleEdgeLow : Bool) :
    Cuts nWay n where
  cut :=
    if handleEdgeLow then lowEdgeCut nWay n bf else highEdgeCut nWay n bf
  cut_zero := by
    cases handleEdgeLow with
    | false => simp [highEdgeCut, positive]
    | true => simp [lowEdgeCut]
  cut_ways := by
    cases handleEdgeLow with
    | false => simp [highEdgeCut]
    | true =>
        have remainder : n / bf % nWay < nWay := Nat.mod_lt _ positive
        have highThreads :
            nWay - (nWay - n / bf % nWay) = n / bf % nWay := by
          omega
        simp only [lowEdgeCut, if_true, if_neg positive.ne', highThreads]
        exact blocks_mul_add_left nWay n bf
  monotone := by
    intro way _
    cases handleEdgeLow with
    | false => exact highEdgeCut_le_succ nWay n bf way
    | true => exact lowEdgeCut_le_succ nWay n bf way

theorem lowThread_start (workId q r bf : Nat) (low : workId < r) :
    workId * ((q + 1) * bf) = (workId * q + min workId r) * bf := by
  rw [min_eq_left low.le]
  ring

theorem highThread_start (workId q r bf : Nat) (high : r ≤ workId) :
    r * ((if r ≠ 0 then q + 1 else q) * bf) + (workId - r) * (q * bf) =
      (workId * q + min workId r) * bf := by
  rw [min_eq_right high]
  rcases Nat.exists_eq_add_of_le high with ⟨rest, rfl⟩
  rw [Nat.add_sub_cancel_left]
  by_cases none : r = 0
  · simp [none, Nat.mul_assoc]
  · rw [if_pos none]
    ring

theorem dlpThreadTaskRange_highEdge
    (thread : DlpTaskId) (n bf : Nat)
    (valid : thread.workId < thread.nWay) :
    dlpThreadTaskRange thread n bf false =
      (highEdgeCut thread.nWay n bf thread.workId,
        highEdgeCut thread.nWay n bf (thread.workId + 1)) := by
  rcases thread with ⟨ocommId, nWay, workId⟩
  change workId < nWay at valid
  have whole := blocks_mul_add_left nWay n bf
  have remainder : n / bf % nWay < nWay :=
    Nat.mod_lt _ (Nat.zero_lt_of_lt valid)
  simp only [dlpThreadTaskRange, if_neg (Nat.not_le.mpr valid), if_true]
  by_cases single : nWay = 1
  · have first : workId = 0 := by omega
    simp [single, first, highEdgeCut]
  rw [if_neg single]
  simp only [highEdgeCut, if_pos valid]
  generalize n / bf / nWay = q at *
  generalize n / bf % nWay = r at *
  generalize n % bf = left at *
  by_cases low : workId < r
  · have some : r ≠ 0 := by omega
    have inside : workId + 1 < nWay := by omega
    rw [if_pos low, if_pos some, if_pos inside]
    have follow : (workId + 1) * ((q + 1) * bf) =
        ((workId + 1) * q + min (workId + 1) r) * bf := by
      rw [min_eq_left (show workId + 1 ≤ r from low)]
      ring
    rw [lowThread_start workId q r bf low, follow]
  · have high : r ≤ workId := Nat.le_of_not_lt low
    have next := highThread_start (workId + 1) q r bf (by omega)
    rw [if_neg low, highThread_start workId q r bf high,
      ← Nat.sub_add_comm high, next]
    by_cases last : workId = nWay - 1
    · have final : workId + 1 = nWay := by omega
      rw [if_pos last, if_neg (by omega), final,
        min_eq_right remainder.le, whole]
    · rw [if_neg last, if_pos (by omega)]

theorem dlpThreadTaskRange_lowEdge
    (thread : DlpTaskId) (n bf : Nat)
    (valid : thread.workId < thread.nWay) :
    dlpThreadTaskRange thread n bf true =
      (lowEdgeCut thread.nWay n bf thread.workId,
        lowEdgeCut thread.nWay n bf (thread.workId + 1)) := by
  rcases thread with ⟨ocommId, nWay, workId⟩
  change workId < nWay at valid
  have whole := blocks_mul_add_left nWay n bf
  have remainder : n / bf % nWay < nWay :=
    Nat.mod_lt _ (Nat.zero_lt_of_lt valid)
  simp only [dlpThreadTaskRange, if_neg (Nat.not_le.mpr valid)]
  by_cases single : nWay = 1
  · have first : workId = 0 := by omega
    subst first
    subst single
    simp only [lowEdgeCut, if_true, if_neg (Nat.succ_ne_zero 0)]
    simpa [Nat.mod_one] using whole.symm
  rw [if_neg single]
  simp only [lowEdgeCut, if_neg (Nat.succ_ne_zero workId),
    Bool.true_eq_false, if_false]
  generalize n / bf / nWay = q at *
  generalize n / bf % nWay = r at *
  generalize n % bf = left at *
  by_cases low : workId < nWay - r
  · rw [if_pos low]
    have none : workId + 1 - (nWay - r) = 0 := by omega
    by_cases first : workId = 0
    · subst first
      rw [if_pos rfl, if_pos rfl, none]
      simp
    · rw [if_neg first, if_neg first, none,
        show workId - (nWay - r) = 0 by omega]
      simp [Nat.mul_assoc]
  · have some : r ≠ 0 := by omega
    have notFirst : workId ≠ 0 := by omega
    rcases Nat.exists_eq_add_of_le (Nat.le_of_not_lt low) with
      ⟨rest, equal⟩
    generalize nWay - r = lowThreads at *
    subst equal
    rw [if_neg low, if_pos some, if_neg notFirst, Nat.add_sub_cancel_left,
      show lowThreads + rest + 1 - lowThreads = rest + 1 by omega]
    apply Prod.ext
    · ring
    · ring

/-- A valid work id owns the interval between two consecutive boundaries. -/
theorem dlpThreadTaskRange_eq_cuts
    (thread : DlpTaskId) (n bf : Nat) (handleEdgeLow : Bool)
    (valid : thread.workId < thread.nWay) :
    dlpThreadTaskRange thread n bf handleEdgeLow =
      ((taskCuts thread.nWay n bf (Nat.zero_lt_of_lt valid)
          handleEdgeLow).cut thread.workId,
        (taskCuts thread.nWay n bf (Nat.zero_lt_of_lt valid)
          handleEdgeLow).cut (thread.workId + 1)) := by
  cases handleEdgeLow with
  | false => exact dlpThreadTaskRange_highEdge thread n bf valid
  | true => exact dlpThreadTaskRange_lowEdge thread n bf valid

/-- Ranges start at whole blocks. -/
theorem highEdgeCut_dvd {nWay way : Nat} (n bf : Nat) (valid : way < nWay) :
    bf ∣ highEdgeCut nWay n bf way := by
  rw [highEdgeCut, if_pos valid]
  exact Nat.dvd_mul_left bf _

/-- Ranges end at whole blocks or at the end of the index range. -/
theorem highEdgeCut_ends {nWay way : Nat} (n bf : Nat)
    (valid : way < nWay) :
    highEdgeCut nWay n bf (way + 1) = n ∨
      (bf ∣ highEdgeCut nWay n bf (way + 1) ∧
        highEdgeCut nWay n bf (way + 1) ≤ n) := by
  by_cases inner : way + 1 < nWay
  · refine Or.inr ⟨highEdgeCut_dvd n bf inner, ?_⟩
    exact (taskCuts nWay n bf (Nat.zero_lt_of_lt valid) false).cut_le_size
      inner.le
  · exact Or.inl (if_neg inner)

/-- A work id drawn from a wider pool than `n_way` is retired. -/
theorem dlpThreadTaskRange_retired
    (thread : DlpTaskId) (n bf : Nat) (handleEdgeLow : Bool)
    (retired : thread.nWay ≤ thread.workId) :
    dlpThreadTaskRange thread n bf handleEdgeLow = (n, n) := by
  simp [dlpThreadTaskRange, retired]

/-- Every range lies in the split extent. -/
theorem dlpThreadTaskRange_bounds (thread : DlpTaskId) (n bf : Nat) :
    (dlpThreadTaskRange thread n bf false).1 ≤
        (dlpThreadTaskRange thread n bf false).2 ∧
      (dlpThreadTaskRange thread n bf false).2 ≤ n := by
  rcases Nat.lt_or_ge thread.workId thread.nWay with valid | retired
  · rw [dlpThreadTaskRange_highEdge thread n bf valid]
    refine ⟨highEdgeCut_le_succ thread.nWay n bf thread.workId, ?_⟩
    rcases highEdgeCut_ends n bf valid with last | inner
    · exact last.le
    · exact inner.2
  · rw [dlpThreadTaskRange_retired thread n bf false retired]
    exact ⟨le_rfl, le_rfl⟩

end AoclDlp.Threading.TaskRange
