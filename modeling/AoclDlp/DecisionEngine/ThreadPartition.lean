import AoclDlp.Threading.Factorization

/-!
# The decision engine's thread factorizer

`de_thread_partition.hh` and `math_utils.hh` restate the C factorizer so that
the decision engine can score a tile together with the split it would run
under.  The class `gemmThreadPartitioner` fixes the shared skeleton and leaves
the treatment of the seed partition to a datatype hook.

The two copies are embedded separately, each from its own source, and the
results of this module relate them function by function.
-/

namespace AoclDlp.DecisionEngine.ThreadPartition

open AoclDlp.Threading.Factorization

/-! ## Number theory of `math_utils.hh` -/

/-- `utils::math::primeFactors`. -/
structure PrimeFactors where
  n : Nat
  sqrtN : Nat
  f : Nat
  deriving DecidableEq, Repr

/-- `utils::math::primeFactorization`. -/
def primeFactorization (n : Nat) : PrimeFactors :=
  ⟨n, Nat.sqrt n, 2⟩

/-- The `while` loop of `utils::math::nextPrimeFactor`. -/
def nextPrimeFactorLoop : Nat → PrimeFactors → Nat × PrimeFactors
  | 0, factors => (factors.n, { factors with n := 1 })
  | fuel + 1, factors =>
      if factors.f ≤ factors.sqrtN then
        if factors.f = 2 then
          if factors.n % 2 = 0 then
            (2, { factors with n := factors.n / 2 })
          else nextPrimeFactorLoop fuel { factors with f := 3 }
        else if factors.f = 3 then
          if factors.n % 3 = 0 then
            (3, { factors with n := factors.n / 3 })
          else nextPrimeFactorLoop fuel { factors with f := 5 }
        else if factors.f = 5 then
          if factors.n % 5 = 0 then
            (5, { factors with n := factors.n / 5 })
          else nextPrimeFactorLoop fuel { factors with f := 7 }
        else if factors.f = 7 then
          if factors.n % 7 = 0 then
            (7, { factors with n := factors.n / 7 })
          else nextPrimeFactorLoop fuel { factors with f := 11 }
        else
          if factors.n % factors.f = 0 then
            (factors.f, { factors with n := factors.n / factors.f })
          else nextPrimeFactorLoop fuel { factors with f := factors.f + 1 }
      else (factors.n, { factors with n := 1 })

/-- `utils::math::nextPrimeFactor`. -/
def nextPrimeFactor (factors : PrimeFactors) : Nat × PrimeFactors :=
  nextPrimeFactorLoop (factors.sqrtN + 1) factors

/-- `utils::math::isPrime`. -/
def isPrime (n : Nat) : Bool :=
  if n < 2 then false
  else (nextPrimeFactor (primeFactorization n)).1 = n

/-- The search of `utils::math::nextFactor`. -/
def nextFactorSearch (nt : Nat) : Nat → Nat → Nat
  | 0, ntTemp => ntTemp
  | fuel + 1, ntTemp =>
      if ntTemp ≤ nt ∧ nt % ntTemp ≠ 0 then
        nextFactorSearch nt fuel (ntTemp + 1)
      else ntTemp

/-- `utils::math::nextFactor`. -/
def nextFactor (nt partNt : Nat) : Nat :=
  if partNt = nt then partNt else nextFactorSearch nt nt (partNt + 1)

/-- The search of `utils::math::prevFactor`. -/
def prevFactorSearch (nt : Nat) : Nat → Nat
  | 0 => 0
  | ntTemp + 1 =>
      if nt % (ntTemp + 1) ≠ 0 then prevFactorSearch nt ntTemp
      else ntTemp + 1

/-- `utils::math::prevFactor`. -/
def prevFactor (nt partNt : Nat) : Nat :=
  if partNt = 1 then partNt else prevFactorSearch nt (partNt - 1)

/-! ## Partition and rebalancing -/

/-- The greedy loop of `partition2x2`: `((work1, work2), (tn1, tn2))`. -/
def partition2x2Loop :
    Nat → PrimeFactors → Nat × Nat → Nat × Nat → (Nat × Nat) × Nat × Nat
  | 0, _, work, tn => (work, tn)
  | fuel + 1, factors, work, tn =>
      let step := nextPrimeFactor factors
      let f := step.1
      if f > 1 then
        if work.1 > work.2 then
          partition2x2Loop fuel step.2 (work.1 / f, work.2) (tn.1 * f, tn.2)
        else
          partition2x2Loop fuel step.2 (work.1, work.2 / f) (tn.1, tn.2 * f)
      else (work, tn)

/-- `thread_partition::partition2x2`: the pair `(nt1, nt2)`. -/
def partition2x2 (nThread work1 work2 : Nat) : Nat × Nat :=
  if nThread < 4 then
    (if work1 ≥ work2 then nThread else 1,
      if work1 < work2 then nThread else 1)
  else
    let greedy :=
      partition2x2Loop nThread (primeFactorization nThread)
        (work1, work2) (1, 1)
    let work := greedy.1
    let tn := greedy.2
    if work.1 > work.2 then
      if tn.2 % 2 = 0 then
        let diff := work.1 - work.2
        let diffMod :=
          Int.natAbs ((work.1 / 2 : Nat) - (work.2 * 2 : Nat) : Int)
        if diffMod < diff then (tn.1 * 2, tn.2 / 2) else tn
      else tn
    else if work.1 < work.2 then
      if tn.1 % 2 = 0 then
        let diff := work.2 - work.1
        let diffMod :=
          Int.natAbs ((work.2 / 2 : Nat) - (work.1 * 2 : Nat) : Int)
        if diffMod < diff then (tn.1 / 2, tn.2 * 2) else tn
      else tn
    else tn

/-- `thread_partition::adjustIcJcWays`. -/
def adjustIcJcWays (mr nr m n : Nat) (ways : Ways) : Ways :=
  let mu := (m + mr - 1) / mr
  let nu := (n + nr - 1) / nr
  let nThreads := ways.nThreads
  if nu % ways.jcWays ≠ 0 ∧ ways.icWays < nThreads then
    let muIcCur := (mu + ways.icWays - 1) / ways.icWays
    let nuJcCur := (nu + ways.jcWays - 1) / ways.jcWays
    let panelWorkCur := muIcCur + nuJcCur
    let nextIc := nextFactor nThreads ways.icWays
    let prevJc := prevFactor nThreads ways.jcWays
    let muIcNext := (mu + nextIc - 1) / nextIc
    let nuJcPrev := (nu + prevJc - 1) / prevJc
    let panelWorkNext := muIcNext + nuJcPrev
    let first : Nat × Ways :=
      if panelWorkNext < panelWorkCur then
        (panelWorkNext, ⟨nThreads, nextIc, prevJc⟩)
      else (panelWorkCur, ways)
    if nu % first.2.jcWays ≠ 0 ∧ nextIc < nThreads then
      let nextNextIc := nextFactor nThreads nextIc
      let prevPrevJc := prevFactor nThreads prevJc
      let muIcNextNext := (mu + nextNextIc - 1) / nextNextIc
      let nuJcPrevPrev := (nu + prevPrevJc - 1) / prevPrevJc
      let panelWorkNextNext := muIcNextNext + nuJcPrevPrev
      let second : Nat × Ways :=
        if panelWorkNextNext < first.1 then
          (panelWorkNextNext, ⟨nThreads, nextNextIc, prevPrevJc⟩)
        else first
      if nu % second.2.jcWays ≠ 0 ∧ nextNextIc < nThreads then
        let nextNextNextIc := nextFactor nThreads nextNextIc
        let prevPrevPrevJc := prevFactor nThreads prevPrevJc
        let muIcNextNextNext := (mu + nextNextNextIc - 1) / nextNextNextIc
        let nuJcPrevPrevPrev := (nu + prevPrevPrevJc - 1) / prevPrevPrevJc
        let panelWorkNextNextNext := muIcNextNextNext + nuJcPrevPrevPrev
        if panelWorkNextNextNext < second.1 then
          ⟨nThreads, nextNextNextIc, prevPrevPrevJc⟩
        else second.2
      else second.2
    else first.2
  else ways

/-- `thread_partition::adjustForPrimeThreadCount`. -/
def adjustForPrimeThreadCount (mr nr m n : Nat) (ways : Ways) : Ways :=
  let mrBlks := (m + mr - 1) / mr
  let nrBlks := (n + nr - 1) / nr
  let reducedNThreads := ways.nThreads - 1
  let seed := partition2x2 reducedNThreads m n
  let reduced : Ways :=
    if mrBlks ≥ seed.1 then
      adjustIcJcWays mr nr m n ⟨reducedNThreads, seed.1, seed.2⟩
    else ⟨reducedNThreads, seed.1, seed.2⟩
  let mrBlksIc := (mrBlks + ways.icWays - 1) / ways.icWays
  let nrBlksJc := (nrBlks + ways.jcWays - 1) / ways.jcWays
  let panelWorkOrg := mrBlksIc + nrBlksJc
  let mrBlksReducedIc := (mrBlks + reduced.icWays - 1) / reduced.icWays
  let nrBlksReducedJc := (nrBlks + reduced.jcWays - 1) / reduced.jcWays
  let panelWorkRed := mrBlksReducedIc + nrBlksReducedJc
  if panelWorkRed < panelWorkOrg then reduced else ways

/-- What a datatype does to the seed partition (`adjustWays`). -/
abbrev AdjustWays := Nat → Nat → Nat → Nat → Ways → Ways

/-- `gemmThreadPartitioner::resolveWays` over a datatype's hook. -/
def resolveWays (adjustWays : AdjustWays) (mr nr m n : Nat)
    (nThreads icWays jcWays : Int) : Ways :=
  if icWays > 0 ∨ jcWays > 0 then
    let icWays := if icWays > 0 then icWays.toNat else 1
    let jcWays := if jcWays > 0 then jcWays.toNat else 1
    ⟨jcWays * icWays, icWays, jcWays⟩
  else if nThreads > 1 then
    let nThreads := nThreads.toNat
    let mrBlks := (m + mr - 1) / mr
    let nrBlks := (n + nr - 1) / nr
    let mrxnrBlks := mrBlks * nrBlks
    let mrBlksAdjNThreads := nThreads / mrBlks * mrBlks
    let deltaMrBlksAdj := nThreads - mrBlksAdjNThreads
    let lowFreqThres := 6
    if n ≤ nr then
      ⟨nThreads * 1, nThreads, 1⟩
    else if m ≤ mr then
      ⟨1 * nThreads, 1, nThreads⟩
    else if n % nr = 0 ∧ mrxnrBlks ≤ nThreads ∧
        deltaMrBlksAdj < lowFreqThres then
      ⟨mrBlks * (nThreads / mrBlks), mrBlks, nThreads / mrBlks⟩
    else
      let seed := partition2x2 nThreads m n
      adjustWays mr nr m n ⟨nThreads, seed.1, seed.2⟩
  else ⟨1, 1, 1⟩

/-- `gemmBF16DEBackend::adjustWays`. -/
def bf16AdjustWays : AdjustWays := fun mr nr m n ways =>
  let mrBlks := (m + mr - 1) / mr
  let ways :=
    if mrBlks ≥ ways.icWays then adjustIcJcWays mr nr m n ways else ways
  if isPrime ways.nThreads then
    adjustForPrimeThreadCount mr nr m n ways
  else ways

/-! ## Agreement with the C factorizer -/

/-- The C record with the same search state. -/
def toDlp (factors : PrimeFactors) : DlpPrimeFactors :=
  ⟨factors.n, factors.sqrtN, factors.f⟩

theorem nextPrimeFactorLoop_agrees (fuel : Nat) (factors : PrimeFactors) :
    dlpNextPrimeFactorLoop fuel (toDlp factors) =
      Prod.map id toDlp (nextPrimeFactorLoop fuel factors) := by
  induction fuel generalizing factors with
  | zero => rfl
  | succ fuel ih =>
      have resumed (f : Nat) :
          dlpNextPrimeFactorLoop fuel { toDlp factors with f := f } =
            Prod.map id toDlp
              (nextPrimeFactorLoop fuel { factors with f := f }) :=
        ih { factors with f := f }
      rw [dlpNextPrimeFactorLoop, nextPrimeFactorLoop]
      simp only [resumed, apply_ite (Prod.map id toDlp)]
      rfl

theorem nextPrimeFactor_agrees (factors : PrimeFactors) :
    dlpNextPrimeFactor (toDlp factors) =
      Prod.map id toDlp (nextPrimeFactor factors) :=
  nextPrimeFactorLoop_agrees _ factors

theorem isPrime_agrees (n : Nat) : dlpIsPrime n = isPrime n := by
  have factor :
      (dlpNextPrimeFactor (dlpPrimeFactorization n)).1 =
        (nextPrimeFactor (primeFactorization n)).1 :=
    congrArg Prod.fst (nextPrimeFactor_agrees (primeFactorization n))
  rw [dlpIsPrime, isPrime, factor]

theorem nextFactor_agrees (nt partNt : Nat) :
    dlpNextFactor nt partNt = nextFactor nt partNt := by
  have search : ∀ fuel ntTemp,
      nextFactorLoop nt fuel ntTemp = nextFactorSearch nt fuel ntTemp := by
    intro fuel
    induction fuel with
    | zero => intro ntTemp; rfl
    | succ fuel ih =>
        intro ntTemp
        rw [nextFactorLoop, nextFactorSearch, ih]
  rw [dlpNextFactor, nextFactor, search]

theorem prevFactor_agrees (nt partNt : Nat) :
    dlpPrevFactor nt partNt = prevFactor nt partNt := by
  have search : ∀ ntTemp,
      prevFactorLoop nt ntTemp = prevFactorSearch nt ntTemp := by
    intro ntTemp
    induction ntTemp with
    | zero => rfl
    | succ ntTemp ih => rw [prevFactorLoop, prevFactorSearch, ih]
  rw [dlpPrevFactor, prevFactor, search]

theorem partition2x2Loop_agrees (fuel : Nat) (factors : PrimeFactors)
    (work tn : Nat × Nat) :
    let classic :=
      partitionLoop fuel ⟨work.1, work.2, tn.1, tn.2, toDlp factors⟩
    partition2x2Loop fuel factors work tn =
      ((classic.work1, classic.work2), (classic.tn1, classic.tn2)) := by
  induction fuel generalizing factors work tn with
  | zero => rfl
  | succ fuel ih =>
      simp only [partition2x2Loop, partitionLoop, nextPrimeFactor_agrees,
        Prod.map_fst, Prod.map_snd, id]
      split_ifs
      · exact ih _ _ _
      · exact ih _ _ _
      · rfl

theorem partition2x2_agrees (nThread work1 work2 : Nat) :
    dlpThreadPartition2x2 nThread work1 work2 =
      partition2x2 nThread work1 work2 := by
  rw [dlpThreadPartition2x2, partition2x2]
  dsimp only
  rw [partition2x2Loop_agrees]
  rfl

theorem adjustIcJcWays_agrees (mr nr m n : Nat) (ways : Ways) :
    dlpGemmPnlWrkHeurAdjustIcJcWays mr nr m n ways =
      adjustIcJcWays mr nr m n ways := by
  unfold dlpGemmPnlWrkHeurAdjustIcJcWays adjustIcJcWays
  simp only [nextFactor_agrees, prevFactor_agrees, takeIfBetter, panelWork]
  split_ifs <;> rfl

theorem adjustForPrime_agrees (mr nr m n : Nat) (ways : Ways) :
    dlpGemmPnlWrkHeurAdjustThreadingForPrimeNt mr nr m n ways =
      adjustForPrimeThreadCount mr nr m n ways := by
  unfold dlpGemmPnlWrkHeurAdjustThreadingForPrimeNt
    adjustForPrimeThreadCount adjustIfRoom seedWays
  simp only [partition2x2_agrees, adjustIcJcWays_agrees]

/-- The BF16 hook is the tail of the C factorizer. -/
theorem bf16AdjustWays_agrees (mr nr m n nThreads : Nat) :
    (let ways := adjustIfRoom mr nr m n (seedWays nThreads m n)
      if dlpIsPrime ways.nThreads then
        dlpGemmPnlWrkHeurAdjustThreadingForPrimeNt mr nr m n ways
      else ways) =
      bf16AdjustWays mr nr m n
        ⟨nThreads, (partition2x2 nThreads m n).1,
          (partition2x2 nThreads m n).2⟩ := by
  unfold bf16AdjustWays adjustIfRoom seedWays
  simp only [partition2x2_agrees, adjustIcJcWays_agrees, isPrime_agrees,
    adjustForPrime_agrees]

theorem resolveWays_agrees (mr nr m n : Nat)
    (nThreads icWays jcWays : Int) :
    resolveWays bf16AdjustWays mr nr m n nThreads icWays jcWays =
      dlpGemmBf16bf16f32of32GetThreading m n ⟨nThreads, jcWays, icWays⟩
        mr nr := by
  unfold resolveWays dlpGemmBf16bf16f32of32GetThreading
  simp only [← bf16AdjustWays_agrees]

end AoclDlp.DecisionEngine.ThreadPartition
