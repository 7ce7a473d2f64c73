import AoclDlp.Foundations.Divisors
import Mathlib.Data.Nat.Sqrt
import Mathlib.Tactic.Linarith

/-!
# Factorizing a thread count

The C factorizer of `dlp_gemm_thread_utils.c` and
`dlp_gemm_thread_decor_openmp.c`.  A thread count is split into `ic` and `jc`
ways by assigning its prime factors greedily, and the split is then rebalanced
on the panels of work per thread.  The `double` square root of the source is
taken to be the integer square root.

Each loop of the source carries fuel; the loops' own variables bound the
number of iterations, so the fuel never runs out.
-/

namespace AoclDlp.Threading.Factorization

open AoclDlp.Foundations.Divisors

/-! ## Prime factors -/

/-- `dlp_prime_factors_t`. -/
structure DlpPrimeFactors where
  n : Nat
  sqrtN : Nat
  f : Nat
  deriving DecidableEq, Repr

/-- `dlp_prime_factorization`. -/
def dlpPrimeFactorization (n : Nat) : DlpPrimeFactors where
  n := n
  sqrtN := Nat.sqrt n
  f := 2

/-- The `while` loop of `dlp_next_prime_factor`, which always raises `f`. -/
def dlpNextPrimeFactorLoop :
    Nat → DlpPrimeFactors → Nat × DlpPrimeFactors
  | 0, factors => (factors.n, { factors with n := 1 })
  | fuel + 1, factors =>
      if factors.f ≤ factors.sqrtN then
        if factors.f = 2 then
          if factors.n % 2 = 0 then
            (2, { factors with n := factors.n / 2 })
          else dlpNextPrimeFactorLoop fuel { factors with f := 3 }
        else if factors.f = 3 then
          if factors.n % 3 = 0 then
            (3, { factors with n := factors.n / 3 })
          else dlpNextPrimeFactorLoop fuel { factors with f := 5 }
        else if factors.f = 5 then
          if factors.n % 5 = 0 then
            (5, { factors with n := factors.n / 5 })
          else dlpNextPrimeFactorLoop fuel { factors with f := 7 }
        else if factors.f = 7 then
          if factors.n % 7 = 0 then
            (7, { factors with n := factors.n / 7 })
          else dlpNextPrimeFactorLoop fuel { factors with f := 11 }
        else
          if factors.n % factors.f = 0 then
            (factors.f, { factors with n := factors.n / factors.f })
          else
            dlpNextPrimeFactorLoop fuel { factors with f := factors.f + 1 }
      else (factors.n, { factors with n := 1 })

/-- `dlp_next_prime_factor`: the factor and the updated search state. -/
def dlpNextPrimeFactor (factors : DlpPrimeFactors) :
    Nat × DlpPrimeFactors :=
  dlpNextPrimeFactorLoop (factors.sqrtN + 1) factors

/-- `dlp_is_prime`. -/
def dlpIsPrime (n : Nat) : Bool :=
  if n < 2 then false
  else (dlpNextPrimeFactor (dlpPrimeFactorization n)).1 = n

/-! ## The greedy two-way partition -/

/-- The variables of the greedy loop of `dlp_thread_partition_2x2`. -/
structure PartitionState where
  work1 : Nat
  work2 : Nat
  tn1 : Nat
  tn2 : Nat
  factors : DlpPrimeFactors
  deriving DecidableEq, Repr

/-- The greedy loop: every factor goes to the side with more work. -/
def partitionLoop : Nat → PartitionState → PartitionState
  | 0, state => state
  | fuel + 1, state =>
      let step := dlpNextPrimeFactor state.factors
      if step.1 > 1 then
        if state.work1 > state.work2 then
          partitionLoop fuel
            ⟨state.work1 / step.1, state.work2, state.tn1 * step.1,
              state.tn2, step.2⟩
        else
          partitionLoop fuel
            ⟨state.work1, state.work2 / step.1, state.tn1,
              state.tn2 * step.1, step.2⟩
      else { state with factors := step.2 }

/-- The final attempt of the partition to move one factor of two. -/
def rebalance (state : PartitionState) : Nat × Nat :=
  if state.work1 > state.work2 then
    if state.tn2 % 2 = 0 then
      let diff := state.work1 - state.work2
      let diffMod :=
        Int.natAbs ((state.work1 / 2 : Nat) - (state.work2 * 2 : Nat) : Int)
      if diffMod < diff then (state.tn1 * 2, state.tn2 / 2)
      else (state.tn1, state.tn2)
    else (state.tn1, state.tn2)
  else if state.work1 < state.work2 then
    if state.tn1 % 2 = 0 then
      let diff := state.work2 - state.work1
      let diffMod :=
        Int.natAbs ((state.work2 / 2 : Nat) - (state.work1 * 2 : Nat) : Int)
      if diffMod < diff then (state.tn1 / 2, state.tn2 * 2)
      else (state.tn1, state.tn2)
    else (state.tn1, state.tn2)
  else (state.tn1, state.tn2)

/-- `dlp_thread_partition_2x2`: the pair `(nt1, nt2)`. -/
def dlpThreadPartition2x2 (nThread work1 work2 : Nat) : Nat × Nat :=
  if nThread < 4 then
    (if work1 ≥ work2 then nThread else 1,
      if work1 < work2 then nThread else 1)
  else
    rebalance
      (partitionLoop nThread
        ⟨work1, work2, 1, 1, dlpPrimeFactorization nThread⟩)

/-! ## Neighbouring divisors of the thread count -/

/-- The upward search of `dlp_next_factor`. -/
def nextFactorLoop (nt : Nat) : Nat → Nat → Nat
  | 0, ntTemp => ntTemp
  | fuel + 1, ntTemp =>
      if ntTemp ≤ nt ∧ nt % ntTemp ≠ 0 then
        nextFactorLoop nt fuel (ntTemp + 1)
      else ntTemp

/-- `dlp_next_factor`. -/
def dlpNextFactor (nt partNt : Nat) : Nat :=
  if partNt = nt then partNt else nextFactorLoop nt nt (partNt + 1)

/-- The downward search of `dlp_prev_factor`. -/
def prevFactorLoop (nt : Nat) : Nat → Nat
  | 0 => 0
  | ntTemp + 1 =>
      if nt % (ntTemp + 1) ≠ 0 then prevFactorLoop nt ntTemp
      else ntTemp + 1

/-- `dlp_prev_factor`. -/
def dlpPrevFactor (nt partNt : Nat) : Nat :=
  if partNt = 1 then partNt else prevFactorLoop nt (partNt - 1)

/-! ## Rebalancing on panel work -/

/-- The thread count and its two factors, as the decorators pass them. -/
structure Ways where
  nThreads : Nat
  icWays : Nat
  jcWays : Nat
  deriving DecidableEq, Repr

/-- Panels of work per thread under a split into `ic` and `jc` ways. -/
def panelWork (mu nu ic jc : Nat) : Nat :=
  (mu + ic - 1) / ic + (nu + jc - 1) / jc

/-- Move to the proposed split when it has strictly less panel work. -/
def takeIfBetter (mu nu ic jc : Nat) (current : Nat × Ways) : Nat × Ways :=
  if panelWork mu nu ic jc < current.1 then
    (panelWork mu nu ic jc, { current.2 with icWays := ic, jcWays := jc })
  else current

/--
`dlp_gemm_pnl_wrk_heur_adjust_ic_jc_ways`: the next three larger `ic` factors
are considered in turn.  The running panel work is paired with the ways.
-/
def dlpGemmPnlWrkHeurAdjustIcJcWays
    (MR NR m n : Nat) (ways : Ways) : Ways :=
  let mu := (m + MR - 1) / MR
  let nu := (n + NR - 1) / NR
  if nu % ways.jcWays ≠ 0 ∧ ways.icWays < ways.nThreads then
    let panelWorkCur := panelWork mu nu ways.icWays ways.jcWays
    let nextIc := dlpNextFactor ways.nThreads ways.icWays
    let prevJc := dlpPrevFactor ways.nThreads ways.jcWays
    let first := takeIfBetter mu nu nextIc prevJc (panelWorkCur, ways)
    if nu % first.2.jcWays ≠ 0 ∧ nextIc < ways.nThreads then
      let nextNextIc := dlpNextFactor ways.nThreads nextIc
      let prevPrevJc := dlpPrevFactor ways.nThreads prevJc
      let second := takeIfBetter mu nu nextNextIc prevPrevJc first
      if nu % second.2.jcWays ≠ 0 ∧ nextNextIc < ways.nThreads then
        let nextNextNextIc := dlpNextFactor ways.nThreads nextNextIc
        let prevPrevPrevJc := dlpPrevFactor ways.nThreads prevPrevJc
        (takeIfBetter mu nu nextNextNextIc prevPrevPrevJc second).2
      else second.2
    else first.2
  else ways

/-- The seed that `dlp_thread_partition_2x2` writes through its pointers. -/
def seedWays (nThreads m n : Nat) : Ways :=
  let seed := dlpThreadPartition2x2 nThreads m n
  ⟨nThreads, seed.1, seed.2⟩

/-- Rebalance a seed unless it oversubscribes the `ic` direction. -/
def adjustIfRoom (MR NR m n : Nat) (ways : Ways) : Ways :=
  if (m + MR - 1) / MR ≥ ways.icWays then
    dlpGemmPnlWrkHeurAdjustIcJcWays MR NR m n ways
  else ways

/-- `dlp_gemm_pnl_wrk_heur_adjust_threading_for_prime_nt`. -/
def dlpGemmPnlWrkHeurAdjustThreadingForPrimeNt
    (MR NR m n : Nat) (ways : Ways) : Ways :=
  let mrBlks := (m + MR - 1) / MR
  let nrBlks := (n + NR - 1) / NR
  let reducedNThreads := ways.nThreads - 1
  let reduced := adjustIfRoom MR NR m n (seedWays reducedNThreads m n)
  let mrBlksIc := (mrBlks + ways.icWays - 1) / ways.icWays
  let nrBlksJc := (nrBlks + ways.jcWays - 1) / ways.jcWays
  let panelWorkOrg := mrBlksIc + nrBlksJc
  let mrBlksReducedIc := (mrBlks + reduced.icWays - 1) / reduced.icWays
  let nrBlksReducedJc := (nrBlks + reduced.jcWays - 1) / reduced.jcWays
  let panelWorkRed := mrBlksReducedIc + nrBlksReducedJc
  if panelWorkRed < panelWorkOrg then reduced else ways

/-- The threading fields of `dlp_rntm_t`; nonpositive means unset. -/
structure DlpRntm where
  numThreads : Int
  jcWays : Int
  icWays : Int
  deriving DecidableEq, Repr

/-- The thread count and ways of a runtime; `finish` is what an operation does
with the rebalanced seed. -/
def getThreadingWith (finish : Ways → Ways) (m n : Nat) (rntm : DlpRntm)
    (MR NR : Nat) : Ways :=
  if rntm.icWays > 0 ∨ rntm.jcWays > 0 then
    let icWays := if rntm.icWays > 0 then rntm.icWays.toNat else 1
    let jcWays := if rntm.jcWays > 0 then rntm.jcWays.toNat else 1
    ⟨jcWays * icWays, icWays, jcWays⟩
  else if rntm.numThreads > 1 then
    let nThreads := rntm.numThreads.toNat
    let mrBlks := (m + MR - 1) / MR
    let nrBlks := (n + NR - 1) / NR
    let mrxnrBlks := mrBlks * nrBlks
    let mrBlksAdjNThreads := nThreads / mrBlks * mrBlks
    let deltaMrBlksAdj := nThreads - mrBlksAdjNThreads
    let lowFreqThres := 6
    if n ≤ NR then
      ⟨nThreads * 1, nThreads, 1⟩
    else if m ≤ MR then
      ⟨1 * nThreads, 1, nThreads⟩
    else if n % NR = 0 ∧ mrxnrBlks ≤ nThreads ∧
        deltaMrBlksAdj < lowFreqThres then
      ⟨mrBlks * (nThreads / mrBlks), mrBlks, nThreads / mrBlks⟩
    else finish (adjustIfRoom MR NR m n (seedWays nThreads m n))
  else ⟨1, 1, 1⟩

/-- `dlp_gemm_s32o32_get_threading`. -/
def dlpGemmS32o32GetThreading (m n : Nat) (rntm : DlpRntm)
    (MR NR : Nat) : Ways :=
  getThreadingWith (fun ways => ways) m n rntm MR NR

/-- `dlp_gemm_bf16bf16f32of32_get_threading`. -/
def dlpGemmBf16bf16f32of32GetThreading
    (m n : Nat) (rntm : DlpRntm) (MR NR : Nat) : Ways :=
  if rntm.icWays > 0 ∨ rntm.jcWays > 0 then
    let icWays := if rntm.icWays > 0 then rntm.icWays.toNat else 1
    let jcWays := if rntm.jcWays > 0 then rntm.jcWays.toNat else 1
    ⟨jcWays * icWays, icWays, jcWays⟩
  else if rntm.numThreads > 1 then
    let nThreads := rntm.numThreads.toNat
    let mrBlks := (m + MR - 1) / MR
    let nrBlks := (n + NR - 1) / NR
    let mrxnrBlks := mrBlks * nrBlks
    let mrBlksAdjNThreads := nThreads / mrBlks * mrBlks
    let deltaMrBlksAdj := nThreads - mrBlksAdjNThreads
    let lowFreqThres := 6
    if n ≤ NR then
      ⟨nThreads * 1, nThreads, 1⟩
    else if m ≤ MR then
      ⟨1 * nThreads, 1, nThreads⟩
    else if n % NR = 0 ∧ mrxnrBlks ≤ nThreads ∧
        deltaMrBlksAdj < lowFreqThres then
      ⟨mrBlks * (nThreads / mrBlks), mrBlks, nThreads / mrBlks⟩
    else
      let ways := adjustIfRoom MR NR m n (seedWays nThreads m n)
      if dlpIsPrime ways.nThreads then
        dlpGemmPnlWrkHeurAdjustThreadingForPrimeNt MR NR m n ways
      else ways
  else ⟨1, 1, 1⟩

/-! ## The factors multiply to the thread count -/

/-- What one call of `dlp_next_prime_factor` guarantees. -/
structure FactorStep (factors : DlpPrimeFactors)
    (result : Nat × DlpPrimeFactors) : Prop where
  product : result.1 * result.2.n = factors.n
  positive : 0 < result.2.n
  search : 2 ≤ result.2.f
  decreases : 1 < result.1 → result.2.n < factors.n
  finished : result.1 ≤ 1 → factors.n = 1

theorem factorStep_of_dvd {factors : DlpPrimeFactors} {factor : Nat}
    (positive : 0 < factors.n) (search : 2 ≤ factors.f)
    (large : 2 ≤ factor) (divides : factors.n % factor = 0) :
    FactorStep factors
      (factor, { factors with n := factors.n / factor }) := by
  have exact := Nat.mul_div_cancel' (Nat.dvd_of_mod_eq_zero divides)
  refine ⟨exact, ?_, search, ?_, ?_⟩
  · exact Nat.div_pos
      (Nat.le_of_dvd positive (Nat.dvd_of_mod_eq_zero divides)) (by omega)
  · intro _
    exact Nat.div_lt_self positive large
  · intro small
    exact absurd large (Nat.not_le.mpr (Nat.lt_succ_of_le small))

theorem factorStep_exhausted {factors : DlpPrimeFactors}
    (nonzero : 0 < factors.n) (search : 2 ≤ factors.f) :
    FactorStep factors (factors.n, { factors with n := 1 }) where
  product := Nat.mul_one factors.n
  positive := Nat.one_pos
  search := search
  decreases := fun large => large
  finished := fun small => le_antisymm small nonzero

theorem FactorStep.advanceSearch {factors : DlpPrimeFactors} {f : Nat}
    {result : Nat × DlpPrimeFactors}
    (step : FactorStep { factors with f := f } result) :
    FactorStep factors result :=
  ⟨step.product, step.positive, step.search, step.decreases,
    step.finished⟩

theorem dlpNextPrimeFactorLoop_step (fuel : Nat) {factors : DlpPrimeFactors}
    (positive : 0 < factors.n) (search : 2 ≤ factors.f) :
    FactorStep factors (dlpNextPrimeFactorLoop fuel factors) := by
  induction fuel generalizing factors with
  | zero => exact factorStep_exhausted positive search
  | succ fuel ih =>
      unfold dlpNextPrimeFactorLoop
      split_ifs
      · exact factorStep_of_dvd positive search (by omega) ‹_›
      · exact .advanceSearch (f := 3)
          (ih positive (show 2 ≤ 3 by decide))
      · exact factorStep_of_dvd positive search (by omega) ‹_›
      · exact .advanceSearch (f := 5)
          (ih positive (show 2 ≤ 5 by decide))
      · exact factorStep_of_dvd positive search (by omega) ‹_›
      · exact .advanceSearch (f := 7)
          (ih positive (show 2 ≤ 7 by decide))
      · exact factorStep_of_dvd positive search (by omega) ‹_›
      · exact .advanceSearch (f := 11)
          (ih positive (show 2 ≤ 11 by decide))
      · exact factorStep_of_dvd positive search search ‹_›
      · exact .advanceSearch (f := factors.f + 1)
          (ih positive (Nat.le_succ_of_le search))
      · exact factorStep_exhausted positive search

theorem dlpNextPrimeFactor_step {factors : DlpPrimeFactors}
    (positive : 0 < factors.n) (search : 2 ≤ factors.f) :
    FactorStep factors (dlpNextPrimeFactor factors) :=
  dlpNextPrimeFactorLoop_step _ positive search

/-- The search limit bounds the iterations of the loop. -/
theorem dlpNextPrimeFactorLoop_fuel {factors : DlpPrimeFactors} {fuel : Nat}
    (enough : factors.sqrtN < factors.f + fuel) :
    dlpNextPrimeFactorLoop (fuel + 1) factors =
      dlpNextPrimeFactorLoop fuel factors := by
  induction fuel generalizing factors with
  | zero =>
      have outside : ¬ factors.f ≤ factors.sqrtN := by omega
      simp [dlpNextPrimeFactorLoop, outside]
  | succ fuel ih =>
      conv_lhs => rw [dlpNextPrimeFactorLoop]
      conv_rhs => rw [dlpNextPrimeFactorLoop]
      split_ifs
      · rfl
      · exact ih (show factors.sqrtN < 3 + fuel by omega)
      · rfl
      · exact ih (show factors.sqrtN < 5 + fuel by omega)
      · rfl
      · exact ih (show factors.sqrtN < 7 + fuel by omega)
      · rfl
      · exact ih (show factors.sqrtN < 11 + fuel by omega)
      · rfl
      · exact ih (show factors.sqrtN < factors.f + 1 + fuel by omega)
      · rfl

/-- The greedy loop distributes the whole thread count. -/
theorem partitionLoop_product {nThread : Nat} (fuel : Nat)
    {state : PartitionState} (positive : 0 < state.factors.n)
    (search : 2 ≤ state.factors.f) (enough : state.factors.n ≤ fuel)
    (product : state.tn1 * state.tn2 * state.factors.n = nThread) :
    (partitionLoop fuel state).tn1 * (partitionLoop fuel state).tn2 =
      nThread := by
  induction fuel generalizing state with
  | zero => omega
  | succ fuel ih =>
      have step := dlpNextPrimeFactor_step positive search
      have split := step.product
      unfold partitionLoop
      dsimp only
      by_cases large : (dlpNextPrimeFactor state.factors).1 > 1
      · have smaller := step.decreases large
        rw [if_pos large]
        by_cases heavier : state.work1 > state.work2
        · rw [if_pos heavier]
          apply ih step.positive step.search
          · simp only
            omega
          · simp only
            rw [← product, ← split]
            ring
        · rw [if_neg heavier]
          apply ih step.positive step.search
          · simp only
            omega
          · simp only
            rw [← product, ← split]
            ring
      · have one := step.finished (Nat.le_of_not_lt large)
        rw [if_neg large]
        rw [one, Nat.mul_one] at product
        exact product

theorem rebalance_product (state : PartitionState) :
    (rebalance state).1 * (rebalance state).2 =
      state.tn1 * state.tn2 := by
  unfold rebalance
  dsimp only
  split_ifs with heavier even narrower lighter even narrower
  · change state.tn1 * 2 * (state.tn2 / 2) = state.tn1 * state.tn2
    rw [Nat.mul_assoc, Nat.mul_div_cancel' (Nat.dvd_of_mod_eq_zero even)]
  · rfl
  · rfl
  · change state.tn1 / 2 * (state.tn2 * 2) = state.tn1 * state.tn2
    calc
      state.tn1 / 2 * (state.tn2 * 2) = 2 * (state.tn1 / 2) * state.tn2 := by
        ring
      _ = state.tn1 * state.tn2 := by
        rw [Nat.mul_div_cancel' (Nat.dvd_of_mod_eq_zero even)]
  · rfl
  · rfl
  · rfl

/-- `dlp_thread_partition_2x2` splits the thread count exactly. -/
theorem dlpThreadPartition2x2_product {nThread : Nat}
    (positive : 0 < nThread) (work1 work2 : Nat) :
    (dlpThreadPartition2x2 nThread work1 work2).1 *
      (dlpThreadPartition2x2 nThread work1 work2).2 = nThread := by
  unfold dlpThreadPartition2x2
  by_cases small : nThread < 4
  · rw [if_pos small]
    by_cases heavier : work1 ≥ work2
    · simp [heavier, Nat.not_lt.mpr heavier]
    · simp [heavier, Nat.lt_of_not_le heavier]
  · rw [if_neg small, rebalance_product]
    exact partitionLoop_product nThread positive le_rfl le_rfl
      (by simp [dlpPrimeFactorization])

theorem nextFactorLoop_spec {nt : Nat} (positive : 0 < nt) (fuel : Nat)
    {ntTemp : Nat} (bounded : ntTemp ≤ nt) (enough : nt ≤ ntTemp + fuel) :
    ntTemp ≤ nextFactorLoop nt fuel ntTemp ∧
      nextFactorLoop nt fuel ntTemp ∣ nt ∧
      ∀ other, ntTemp ≤ other → other < nextFactorLoop nt fuel ntTemp →
        ¬ other ∣ nt := by
  induction fuel generalizing ntTemp with
  | zero =>
      have equal : ntTemp = nt := by omega
      subst equal
      exact ⟨le_rfl, dvd_rfl, fun other lower upper => by
        change other < ntTemp at upper
        omega⟩
  | succ fuel ih =>
      unfold nextFactorLoop
      by_cases skip : ntTemp ≤ nt ∧ nt % ntTemp ≠ 0
      · rw [if_pos skip]
        have proper : ntTemp ≠ nt := by
          intro equal
          rw [equal, Nat.mod_self] at skip
          exact skip.2 rfl
        rcases ih (show ntTemp + 1 ≤ nt by omega) (by omega) with
          ⟨above, divides, least⟩
        refine ⟨by omega, divides, ?_⟩
        intro other lower upper
        by_cases first : other = ntTemp
        · subst first
          intro divisor
          exact skip.2 (Nat.mod_eq_zero_of_dvd divisor)
        · exact least other (by omega) upper
      · rw [if_neg skip]
        have divides : nt % ntTemp = 0 := by
          by_contra nonzero
          exact skip ⟨bounded, nonzero⟩
        exact ⟨le_rfl, Nat.dvd_of_mod_eq_zero divides,
          fun other lower upper => absurd upper (Nat.not_lt.mpr lower)⟩

theorem dlpNextFactor_spec {nt partNt : Nat} (proper : partNt < nt) :
    NextDivisor nt partNt (dlpNextFactor nt partNt) := by
  rw [dlpNextFactor, if_neg proper.ne]
  rcases nextFactorLoop_spec (Nat.zero_lt_of_lt proper) nt
      (show partNt + 1 ≤ nt from proper) (by omega) with
    ⟨above, divides, least⟩
  exact ⟨above, divides, least⟩

theorem prevFactorLoop_spec (nt : Nat) :
    ∀ ntTemp, 1 ≤ ntTemp →
      prevFactorLoop nt ntTemp ≤ ntTemp ∧ prevFactorLoop nt ntTemp ∣ nt ∧
        ∀ other, prevFactorLoop nt ntTemp < other → other ≤ ntTemp →
          ¬ other ∣ nt
  | 0, positive => absurd positive (by decide)
  | ntTemp + 1, _ => by
      unfold prevFactorLoop
      by_cases skip : nt % (ntTemp + 1) ≠ 0
      · rw [if_pos skip]
        have several : 1 ≤ ntTemp := by
          by_contra none
          have zero : ntTemp = 0 := by omega
          rw [zero] at skip
          exact skip (Nat.mod_one nt)
        rcases prevFactorLoop_spec nt ntTemp several with
          ⟨below, divides, greatest⟩
        refine ⟨by omega, divides, ?_⟩
        intro other lower upper
        by_cases last : other = ntTemp + 1
        · subst last
          intro divisor
          exact skip (Nat.mod_eq_zero_of_dvd divisor)
        · exact greatest other lower (by omega)
      · rw [if_neg skip]
        have divides := Nat.dvd_of_mod_eq_zero (not_not.mp skip)
        exact ⟨le_rfl, divides,
          fun other lower upper => absurd upper (Nat.not_le.mpr lower)⟩

theorem dlpPrevFactor_spec {nt partNt : Nat} (several : 1 < partNt) :
    PrevDivisor nt partNt (dlpPrevFactor nt partNt) := by
  rw [dlpPrevFactor, if_neg several.ne']
  rcases prevFactorLoop_spec nt (partNt - 1) (by omega) with
    ⟨below, divides, greatest⟩
  exact ⟨by omega, divides,
    fun other lower upper => greatest other lower (by omega)⟩

/-- Stepping to the neighbouring divisors keeps the product. -/
theorem neighbour_product {nt ic jc : Nat} (positive : 0 < nt)
    (pair : ic * jc = nt) (proper : ic < nt) :
    dlpNextFactor nt ic * dlpPrevFactor nt jc = nt :=
  mul_eq_of_next_prev positive pair (dlpNextFactor_spec proper)
    (dlpPrevFactor_spec (one_lt_of_pair positive pair proper))

/-- A valid result of a factorizer. -/
structure Ways.Exact (ways : Ways) : Prop where
  product : ways.icWays * ways.jcWays = ways.nThreads
  positive : 0 < ways.nThreads

/-- The ways factor the given thread count. -/
def Ways.Splits (nt : Nat) (ways : Ways) : Prop :=
  ways.nThreads = nt ∧ ways.icWays * ways.jcWays = nt

theorem takeIfBetter_splits {nt ic jc : Nat} {current : Nat × Ways}
    (mu nu : Nat) (valid : current.2.Splits nt) (pair : ic * jc = nt) :
    (takeIfBetter mu nu ic jc current).2.Splits nt := by
  unfold takeIfBetter
  split
  · exact ⟨valid.1, pair⟩
  · exact valid

theorem adjustIcJcWays_splits (MR NR m n : Nat) {ways : Ways}
    (valid : ways.Exact) :
    (dlpGemmPnlWrkHeurAdjustIcJcWays MR NR m n ways).Splits
      ways.nThreads := by
  have positive := valid.positive
  have start : ways.Splits ways.nThreads := ⟨rfl, valid.product⟩
  unfold dlpGemmPnlWrkHeurAdjustIcJcWays
  dsimp only
  split
  next entered =>
    have nextPair := neighbour_product positive valid.product entered.2
    have first := takeIfBetter_splits ((m + MR - 1) / MR)
      ((n + NR - 1) / NR)
      (show Ways.Splits ways.nThreads
        (panelWork ((m + MR - 1) / MR) ((n + NR - 1) / NR) ways.icWays
          ways.jcWays, ways).2 from start) nextPair
    split
    next outer =>
      have nextNextPair := neighbour_product positive nextPair outer.2
      have second := takeIfBetter_splits ((m + MR - 1) / MR)
        ((n + NR - 1) / NR) first nextNextPair
      split
      next inner =>
        have lastPair := neighbour_product positive nextNextPair inner.2
        exact takeIfBetter_splits _ _ second lastPair
      next => exact second
    next => exact first
  next => exact start

@[simp]
theorem adjustIcJcWays_nThreads (MR NR m n : Nat) (ways : Ways) :
    (dlpGemmPnlWrkHeurAdjustIcJcWays MR NR m n ways).nThreads =
      ways.nThreads := by
  have kept (mu nu ic jc : Nat) (current : Nat × Ways) :
      (takeIfBetter mu nu ic jc current).2.nThreads =
        current.2.nThreads := by
    unfold takeIfBetter
    split <;> rfl
  unfold dlpGemmPnlWrkHeurAdjustIcJcWays
  dsimp only
  split_ifs <;> simp only [kept]

theorem adjustIcJcWays_exact (MR NR m n : Nat) {ways : Ways}
    (valid : ways.Exact) :
    (dlpGemmPnlWrkHeurAdjustIcJcWays MR NR m n ways).Exact := by
  have splits := adjustIcJcWays_splits MR NR m n valid
  exact ⟨splits.2.trans splits.1.symm, splits.1.symm ▸ valid.positive⟩

theorem seedWays_exact {nThreads : Nat} (positive : 0 < nThreads)
    (m n : Nat) : (seedWays nThreads m n).Exact :=
  ⟨dlpThreadPartition2x2_product positive m n, positive⟩

@[simp]
theorem adjustIfRoom_nThreads (MR NR m n : Nat) (ways : Ways) :
    (adjustIfRoom MR NR m n ways).nThreads = ways.nThreads := by
  unfold adjustIfRoom
  split
  · exact adjustIcJcWays_nThreads MR NR m n ways
  · rfl

theorem adjustIfRoom_exact (MR NR m n : Nat) {ways : Ways}
    (valid : ways.Exact) : (adjustIfRoom MR NR m n ways).Exact := by
  unfold adjustIfRoom
  split
  · exact adjustIcJcWays_exact MR NR m n valid
  · exact valid

theorem adjustForPrimeNt_exact (MR NR m n : Nat) {ways : Ways}
    (valid : ways.Exact) (several : 1 < ways.nThreads) :
    (dlpGemmPnlWrkHeurAdjustThreadingForPrimeNt MR NR m n ways).Exact := by
  have positive : 0 < ways.nThreads - 1 := Nat.sub_pos_of_lt several
  unfold dlpGemmPnlWrkHeurAdjustThreadingForPrimeNt
  dsimp only
  split
  · exact adjustIfRoom_exact MR NR m n (seedWays_exact positive m n)
  · exact valid

theorem adjustForPrimeNt_le (MR NR m n : Nat) (ways : Ways) :
    (dlpGemmPnlWrkHeurAdjustThreadingForPrimeNt MR NR m n ways).nThreads ≤
      ways.nThreads := by
  unfold dlpGemmPnlWrkHeurAdjustThreadingForPrimeNt
  dsimp only
  split
  · rw [adjustIfRoom_nThreads]
    exact Nat.sub_le ways.nThreads 1
  · exact le_rfl

theorem dlpIsPrime_one_lt {n : Nat} (prime : dlpIsPrime n = true) :
    1 < n := by
  by_contra small
  have below : n < 2 := by omega
  simp [dlpIsPrime, below] at prime

theorem blocks_pos {extent block : Nat} (extentPos : 1 ≤ extent)
    (blockPos : 1 ≤ block) : 0 < (extent + block - 1) / block :=
  Nat.div_pos (by omega) blockPos

/-- A factorizer whose general case ends with an exact rebalancing returns a
positive exact factorization. -/
theorem getThreadingWith_exact {m n MR NR : Nat} {finish : Ways → Ways}
    (rntm : DlpRntm) (rows : 1 ≤ m) (columns : 1 ≤ n) (rowBlock : 1 ≤ MR)
    (columnBlock : 1 ≤ NR)
    (finishes : ∀ ways : Ways, ways.Exact → (finish ways).Exact) :
    (getThreadingWith finish m n rntm MR NR).Exact := by
  unfold getThreadingWith
  by_cases overridden : rntm.icWays > 0 ∨ rntm.jcWays > 0
  · rw [if_pos overridden]
    have icPos : 0 < (if rntm.icWays > 0 then rntm.icWays.toNat else 1) := by
      split <;> omega
    have jcPos : 0 < (if rntm.jcWays > 0 then rntm.jcWays.toNat else 1) := by
      split <;> omega
    exact ⟨Nat.mul_comm _ _, Nat.mul_pos jcPos icPos⟩
  rw [if_neg overridden]
  by_cases several : rntm.numThreads > 1
  · have positive : 0 < rntm.numThreads.toNat := by omega
    have mrBlks := blocks_pos rows rowBlock
    have nrBlks := blocks_pos columns columnBlock
    rw [if_pos several]
    dsimp only
    split_ifs with narrow flat exactFit
    · exact ⟨rfl, by simpa using positive⟩
    · exact ⟨rfl, by simpa using positive⟩
    · refine ⟨rfl, Nat.mul_pos mrBlks (Nat.div_pos ?_ mrBlks)⟩
      exact (Nat.le_mul_of_pos_right _ nrBlks).trans exactFit.2.1
    · exact finishes _
        (adjustIfRoom_exact MR NR m n (seedWays_exact positive m n))
  · rw [if_neg several]
    exact ⟨rfl, Nat.one_pos⟩

/-- The classic BF16 factorizer returns a positive exact factorization. -/
theorem getThreading_exact {m n MR NR : Nat} (rntm : DlpRntm)
    (rows : 1 ≤ m) (columns : 1 ≤ n) (rowBlock : 1 ≤ MR)
    (columnBlock : 1 ≤ NR) :
    (dlpGemmBf16bf16f32of32GetThreading m n rntm MR NR).Exact := by
  change (getThreadingWith (fun ways =>
    if dlpIsPrime ways.nThreads then
      dlpGemmPnlWrkHeurAdjustThreadingForPrimeNt MR NR m n ways
    else ways) m n rntm MR NR).Exact
  refine getThreadingWith_exact rntm rows columns rowBlock columnBlock ?_
  intro ways valid
  split
  next prime =>
    exact adjustForPrimeNt_exact MR NR m n valid (dlpIsPrime_one_lt prime)
  next => exact valid

/-- The int8 factorizer returns a positive exact factorization. -/
theorem s32o32GetThreading_exact {m n MR NR : Nat} (rntm : DlpRntm)
    (rows : 1 ≤ m) (columns : 1 ≤ n) (rowBlock : 1 ≤ MR)
    (columnBlock : 1 ≤ NR) :
    (dlpGemmS32o32GetThreading m n rntm MR NR).Exact :=
  getThreadingWith_exact rntm rows columns rowBlock columnBlock
    fun _ valid => valid

/-- Without an override the factorizer never asks for more threads. -/
theorem getThreading_le {m n MR NR : Nat} (rntm : DlpRntm)
    (icUnset : rntm.icWays ≤ 0) (jcUnset : rntm.jcWays ≤ 0) :
    ((dlpGemmBf16bf16f32of32GetThreading m n rntm MR NR).nThreads : Int) ≤
      max 1 rntm.numThreads := by
  unfold dlpGemmBf16bf16f32of32GetThreading
  rw [if_neg (by omega)]
  by_cases several : rntm.numThreads > 1
  · have requested : (rntm.numThreads.toNat : Int) = rntm.numThreads := by
      omega
    rw [if_pos several, max_eq_right several.le, ← requested]
    norm_cast
    dsimp only
    split_ifs with narrow flat exactFit prime
    · exact (Nat.mul_one _).le
    · exact (Nat.one_mul _).le
    · exact Nat.mul_div_le _ _
    · exact (adjustForPrimeNt_le MR NR m n _).trans
        (adjustIfRoom_nThreads MR NR m n _).le
    · exact (adjustIfRoom_nThreads MR NR m n _).le
  · rw [if_neg several]
    exact le_max_left 1 rntm.numThreads

end AoclDlp.Threading.Factorization
