import AoclDlp.Foundations.Checked
import AoclDlp.Threading.Factorization

/-!
# Factor searches that can fail

The searches and the panel rebalancing of the thread factorizers, evaluated
step by step: every division and every remainder fails on a zero divisor, and
a search fails when its fuel runs out before the loop of the source stops.
Over positive ways every evaluation gives what the total function gives.
-/

namespace AoclDlp.Threading.CheckedSearch

open AoclDlp.Foundations.Checked
open AoclDlp.Threading.Factorization

/-! ## The searches -/

/-- The loop of `dlp_next_prime_factor`, evaluated. -/
def nextPrimeFactorSearch :
    Nat → DlpPrimeFactors → Option (Nat × DlpPrimeFactors)
  | 0, _ => none
  | fuel + 1, factors =>
      if factors.f ≤ factors.sqrtN then do
        let rest ← checkedMod factors.n factors.f
        if rest = 0 then
          let quotient ← checkedDiv factors.n factors.f
          some (factors.f, { factors with n := quotient })
        else
          let following :=
            if factors.f = 2 then 3
            else if factors.f = 3 then 5
            else if factors.f = 5 then 7
            else if factors.f = 7 then 11
            else factors.f + 1
          nextPrimeFactorSearch fuel { factors with f := following }
      else some (factors.n, { factors with n := 1 })

/-- `dlp_next_prime_factor`, evaluated. -/
def nextPrimeFactorChecked (factors : DlpPrimeFactors) :
    Option (Nat × DlpPrimeFactors) :=
  nextPrimeFactorSearch (factors.sqrtN + 2) factors

/-- The greedy loop of `dlp_thread_partition_2x2`, evaluated. -/
def partitionSearch : Nat → PartitionState → Option PartitionState
  | 0, _ => none
  | fuel + 1, state => do
      let step ← nextPrimeFactorChecked state.factors
      if step.1 > 1 then
        if state.work1 > state.work2 then
          let work1 ← checkedDiv state.work1 step.1
          partitionSearch fuel
            ⟨work1, state.work2, state.tn1 * step.1, state.tn2, step.2⟩
        else
          let work2 ← checkedDiv state.work2 step.1
          partitionSearch fuel
            ⟨state.work1, work2, state.tn1, state.tn2 * step.1, step.2⟩
      else some { state with factors := step.2 }

/-- `dlp_thread_partition_2x2`, evaluated. -/
def partition2x2Checked (nThread work1 work2 : Nat) : Option (Nat × Nat) :=
  if nThread < 4 then
    some (if work1 ≥ work2 then nThread else 1,
      if work1 < work2 then nThread else 1)
  else do
    let state ← partitionSearch nThread
      ⟨work1, work2, 1, 1, dlpPrimeFactorization nThread⟩
    some (rebalance state)

/-- The upward search of `dlp_next_factor`, evaluated. -/
def nextFactorSearch (nt : Nat) : Nat → Nat → Option Nat
  | 0, _ => none
  | fuel + 1, ntTemp =>
      if ntTemp ≤ nt then do
        let rest ← checkedMod nt ntTemp
        if rest ≠ 0 then nextFactorSearch nt fuel (ntTemp + 1)
        else some ntTemp
      else some ntTemp

/-- `dlp_next_factor`, evaluated. -/
def nextFactorChecked (nt partNt : Nat) : Option Nat :=
  if partNt = nt then some partNt
  else nextFactorSearch nt (nt + 1) (partNt + 1)

/-- The downward search of `dlp_prev_factor`, evaluated. -/
def prevFactorSearch (nt : Nat) : Nat → Option Nat
  | 0 => some 0
  | ntTemp + 1 => do
      let rest ← checkedMod nt (ntTemp + 1)
      if rest ≠ 0 then prevFactorSearch nt ntTemp else some (ntTemp + 1)

/-- `dlp_prev_factor`, evaluated. -/
def prevFactorChecked (nt partNt : Nat) : Option Nat :=
  if partNt = 1 then some partNt else prevFactorSearch nt (partNt - 1)

theorem nextPrimeFactorSearch_eq {fuel : Nat} {factors : DlpPrimeFactors}
    (search : 2 ≤ factors.f) (enough : factors.sqrtN < factors.f + fuel) :
    nextPrimeFactorSearch (fuel + 1) factors =
      some (dlpNextPrimeFactorLoop fuel factors) := by
  induction fuel generalizing factors with
  | zero =>
      have outside : ¬ factors.f ≤ factors.sqrtN := by omega
      rw [nextPrimeFactorSearch, if_neg outside]
      rfl
  | succ fuel ih =>
      have resumed {f : Nat} (above : factors.f < f) :
          nextPrimeFactorSearch (fuel + 1) { factors with f := f } =
            some (dlpNextPrimeFactorLoop fuel { factors with f := f }) :=
        ih (show 2 ≤ f by omega) (show factors.sqrtN < f + fuel by omega)
      rw [nextPrimeFactorSearch, dlpNextPrimeFactorLoop]
      by_cases inside : factors.f ≤ factors.sqrtN
      · simp only [if_pos inside, checkedMod_eq (by omega : 0 < factors.f),
          checkedDiv_eq (by omega : 0 < factors.f), Option.bind_eq_bind,
          Option.bind_some]
        split_ifs <;> first | rfl | exact resumed (by omega) | simp_all
      · rw [if_neg inside, if_neg inside]

theorem nextPrimeFactorChecked_eq {factors : DlpPrimeFactors}
    (search : 2 ≤ factors.f) :
    nextPrimeFactorChecked factors = some (dlpNextPrimeFactor factors) :=
  nextPrimeFactorSearch_eq search (by omega)

theorem partitionSearch_eq {fuel : Nat} {state : PartitionState}
    (positive : 0 < state.factors.n) (search : 2 ≤ state.factors.f)
    (enough : state.factors.n ≤ fuel) :
    partitionSearch fuel state = some (partitionLoop fuel state) := by
  induction fuel generalizing state with
  | zero => omega
  | succ fuel ih =>
      have step := dlpNextPrimeFactor_step positive search
      rw [partitionSearch, partitionLoop, nextPrimeFactorChecked_eq search]
      simp only [Option.bind_eq_bind, Option.bind_some]
      by_cases large : (dlpNextPrimeFactor state.factors).1 > 1
      · have smaller := step.decreases large
        have shorter : (dlpNextPrimeFactor state.factors).2.n ≤ fuel := by
          omega
        rw [if_pos large, if_pos large,
          checkedDiv_eq (Nat.zero_lt_of_lt large),
          checkedDiv_eq (Nat.zero_lt_of_lt large)]
        simp only [Option.bind_some]
        rw [ih step.positive step.search shorter,
          ih step.positive step.search shorter]
        split <;> rfl
      · rw [if_neg large, if_neg large]

theorem partition2x2Checked_eq {nThread : Nat} (positive : 0 < nThread)
    (work1 work2 : Nat) :
    partition2x2Checked nThread work1 work2 =
      some (dlpThreadPartition2x2 nThread work1 work2) := by
  rw [partition2x2Checked, dlpThreadPartition2x2]
  split
  · rfl
  · have searched : partitionSearch nThread
        ⟨work1, work2, 1, 1, dlpPrimeFactorization nThread⟩ = some _ :=
      partitionSearch_eq positive le_rfl le_rfl
    rw [searched]
    rfl

theorem nextFactorSearch_eq {nt fuel ntTemp : Nat} (positive : 0 < ntTemp)
    (enough : nt < ntTemp + fuel) :
    nextFactorSearch nt (fuel + 1) ntTemp =
      some (nextFactorLoop nt fuel ntTemp) := by
  induction fuel generalizing ntTemp with
  | zero =>
      rw [nextFactorSearch, if_neg (by omega)]
      rfl
  | succ fuel ih =>
      rw [nextFactorSearch, nextFactorLoop]
      by_cases inside : ntTemp ≤ nt
      · rw [if_pos inside, checkedMod_eq positive]
        simp only [inside, true_and, Option.bind_eq_bind, Option.bind_some]
        rw [ih (Nat.succ_pos ntTemp) (by omega)]
        split <;> rfl
      · rw [if_neg inside, if_neg fun both => inside both.1]

theorem nextFactorChecked_eq (nt partNt : Nat) :
    nextFactorChecked nt partNt = some (dlpNextFactor nt partNt) := by
  rw [nextFactorChecked, dlpNextFactor]
  split
  · rfl
  · exact nextFactorSearch_eq (Nat.succ_pos partNt) (by omega)

theorem prevFactorSearch_eq (nt ntTemp : Nat) :
    prevFactorSearch nt ntTemp = some (prevFactorLoop nt ntTemp) := by
  induction ntTemp with
  | zero => rfl
  | succ ntTemp ih =>
      rw [prevFactorSearch, prevFactorLoop,
        checkedMod_eq (Nat.succ_pos ntTemp)]
      simp only [Option.bind_eq_bind, Option.bind_some]
      rw [ih]
      split <;> rfl

theorem prevFactorChecked_eq (nt partNt : Nat) :
    prevFactorChecked nt partNt = some (dlpPrevFactor nt partNt) := by
  rw [prevFactorChecked, dlpPrevFactor]
  split
  · rfl
  · exact prevFactorSearch_eq nt (partNt - 1)

theorem nextFactorLoop_le (nt fuel ntTemp : Nat) :
    ntTemp ≤ nextFactorLoop nt fuel ntTemp := by
  induction fuel generalizing ntTemp with
  | zero => exact le_rfl
  | succ fuel ih =>
      rw [nextFactorLoop]
      split
      · exact (Nat.le_succ ntTemp).trans (ih (ntTemp + 1))
      · exact le_rfl

theorem dlpNextFactor_pos (nt : Nat) {partNt : Nat} (positive : 0 < partNt) :
    0 < dlpNextFactor nt partNt := by
  rw [dlpNextFactor]
  split
  · exact positive
  · exact (Nat.succ_pos partNt).trans_le (nextFactorLoop_le nt nt _)

theorem dlpPrevFactor_pos {nt partNt : Nat} (threads : 0 < nt)
    (positive : 0 < partNt) : 0 < dlpPrevFactor nt partNt := by
  by_cases one : partNt = 1
  · rw [dlpPrevFactor, if_pos one]
    exact positive
  · exact Nat.pos_of_dvd_of_pos
      (dlpPrevFactor_spec (show 1 < partNt by omega)).divides threads

/-! ## Rebalancing -/

/-- Panels of work per thread, evaluated. -/
def panelWorkChecked (mu nu ic jc : Nat) : Option Nat := do
  let muIc ← checkedDiv (mu + ic - 1) ic
  let nuJc ← checkedDiv (nu + jc - 1) jc
  some (muIc + nuJc)

/-- The comparison with a proposed split, evaluated. -/
def takeIfBetterChecked (mu nu ic jc : Nat) (current : Nat × Ways) :
    Option (Nat × Ways) := do
  let work ← panelWorkChecked mu nu ic jc
  some (if work < current.1 then
    (work, { current.2 with icWays := ic, jcWays := jc }) else current)

/-- `dlp_gemm_pnl_wrk_heur_adjust_ic_jc_ways`, evaluated. -/
def pnlWrkHeurAdjustIcJcWaysChecked (MR NR m n : Nat) (ways : Ways) :
    Option Ways := do
  let mu ← checkedDiv (m + MR - 1) MR
  let nu ← checkedDiv (n + NR - 1) NR
  let nuModJcWays ← checkedMod nu ways.jcWays
  if nuModJcWays ≠ 0 ∧ ways.icWays < ways.nThreads then
    let panelWorkCur ← panelWorkChecked mu nu ways.icWays ways.jcWays
    let nextIc ← nextFactorChecked ways.nThreads ways.icWays
    let prevJc ← prevFactorChecked ways.nThreads ways.jcWays
    let first ← takeIfBetterChecked mu nu nextIc prevJc (panelWorkCur, ways)
    let nuModJcWays ← checkedMod nu first.2.jcWays
    if nuModJcWays ≠ 0 ∧ nextIc < ways.nThreads then
      let nextNextIc ← nextFactorChecked ways.nThreads nextIc
      let prevPrevJc ← prevFactorChecked ways.nThreads prevJc
      let second ← takeIfBetterChecked mu nu nextNextIc prevPrevJc first
      let nuModJcWays ← checkedMod nu second.2.jcWays
      if nuModJcWays ≠ 0 ∧ nextNextIc < ways.nThreads then
        let nextNextNextIc ← nextFactorChecked ways.nThreads nextNextIc
        let prevPrevPrevJc ← prevFactorChecked ways.nThreads prevPrevJc
        let third ← takeIfBetterChecked mu nu nextNextNextIc prevPrevPrevJc
          second
        some third.2
      else some second.2
    else some first.2
  else some ways

theorem panelWorkChecked_eq {ic jc : Nat} (icPos : 0 < ic) (jcPos : 0 < jc)
    (mu nu : Nat) :
    panelWorkChecked mu nu ic jc = some (panelWork mu nu ic jc) := by
  rw [panelWorkChecked, checkedDiv_eq icPos, checkedDiv_eq jcPos]
  rfl

theorem takeIfBetterChecked_eq {ic jc : Nat} (icPos : 0 < ic)
    (jcPos : 0 < jc) (mu nu : Nat) (current : Nat × Ways) :
    takeIfBetterChecked mu nu ic jc current =
      some (takeIfBetter mu nu ic jc current) := by
  rw [takeIfBetterChecked, panelWorkChecked_eq icPos jcPos]
  rfl

theorem takeIfBetter_jcWays_pos {mu nu ic jc : Nat} {current : Nat × Ways}
    (jcPos : 0 < jc) (positive : 0 < current.2.jcWays) :
    0 < (takeIfBetter mu nu ic jc current).2.jcWays := by
  unfold takeIfBetter
  split
  · exact jcPos
  · exact positive

/-- Positive ways of a positive thread count. -/
structure Positive (ways : Ways) : Prop where
  threads : 0 < ways.nThreads
  ic : 0 < ways.icWays
  jc : 0 < ways.jcWays

theorem positive_of_exact {ways : Ways} (valid : ways.Exact) :
    Positive ways := by
  have positive := valid.positive
  have product := positive
  rw [← valid.product] at product
  exact ⟨positive, Nat.pos_of_mul_pos_right product,
    Nat.pos_of_mul_pos_left product⟩

theorem pnlWrkHeurAdjustIcJcWaysChecked_eq {MR NR : Nat}
    (rowBlock : 0 < MR) (columnBlock : 0 < NR) (m n : Nat) {ways : Ways}
    (positive : Positive ways) :
    pnlWrkHeurAdjustIcJcWaysChecked MR NR m n ways =
      some (dlpGemmPnlWrkHeurAdjustIcJcWays MR NR m n ways) := by
  have nextIc := dlpNextFactor_pos ways.nThreads positive.ic
  have prevJc := dlpPrevFactor_pos positive.threads positive.jc
  have nextNextIc := dlpNextFactor_pos ways.nThreads nextIc
  have prevPrevJc := dlpPrevFactor_pos positive.threads prevJc
  have nextNextNextIc := dlpNextFactor_pos ways.nThreads nextNextIc
  have prevPrevPrevJc := dlpPrevFactor_pos positive.threads prevPrevJc
  have first (work : Nat) : 0 < (takeIfBetter ((m + MR - 1) / MR)
      ((n + NR - 1) / NR) (dlpNextFactor ways.nThreads ways.icWays)
      (dlpPrevFactor ways.nThreads ways.jcWays) (work, ways)).2.jcWays :=
    takeIfBetter_jcWays_pos prevJc positive.jc
  unfold pnlWrkHeurAdjustIcJcWaysChecked dlpGemmPnlWrkHeurAdjustIcJcWays
  simp only [checkedDiv_eq rowBlock, checkedDiv_eq columnBlock,
    checkedMod_eq positive.jc, nextFactorChecked_eq, prevFactorChecked_eq,
    panelWorkChecked_eq positive.ic positive.jc,
    takeIfBetterChecked_eq nextIc prevJc,
    takeIfBetterChecked_eq nextNextIc prevPrevJc,
    takeIfBetterChecked_eq nextNextNextIc prevPrevPrevJc,
    checkedMod_eq (first _),
    checkedMod_eq (takeIfBetter_jcWays_pos prevPrevJc (first _)),
    Option.bind_eq_bind, Option.bind_some]
  split_ifs <;> rfl

end AoclDlp.Threading.CheckedSearch
