import AoclDlp.Config.LocalContext
import AoclDlp.Threading.BatchTag
import AoclDlp.Threading.CheckedSearch

/-!
# The factorizers never trap

The factorizers of `dlp_gemm_thread_decor_openmp.c`, evaluated with divisions
and searches that can fail.  Every factorizer returns positive ways that
multiply to its thread count.  The int8 and the BF16 evaluations give what the
total functions of the earlier modules give; the F32 rebalancing and the F32
batch factorizer are only given here.

Extents, block sizes and counts are mathematical integers here and signed
64-bit in the source.  Where they are below `2 ^ 30`, every sum and every
product that the source forms of them is below `2 ^ 63`, and both agree.
-/

namespace AoclDlp.Threading.CheckedWays

open AoclDlp.Config.BlockSize
open AoclDlp.Config.LocalContext (DlpGemmSupThreshold)
open AoclDlp.Foundations.Checked
open AoclDlp.Threading.BatchTag
open AoclDlp.Threading.CheckedSearch
open AoclDlp.Threading.Factorization

/-! ## Rebalancing the F32 split -/

/-- The neighbouring divisors of both ways. -/
structure Neighbours where
  nextIc : Nat
  nextNextIc : Nat
  prevIc : Nat
  nextJc : Nat
  prevJc : Nat
  prevPrevJc : Nat
  deriving DecidableEq, Repr

/-- The searches of `dlp_gemm_adjust_ic_jc_ways`, evaluated. -/
def neighboursChecked (ways : Ways) : Option Neighbours := do
  let nextIc ← nextFactorChecked ways.nThreads ways.icWays
  let nextNextIc ← nextFactorChecked ways.nThreads nextIc
  let prevIc ← prevFactorChecked ways.nThreads ways.icWays
  let nextJc ← nextFactorChecked ways.nThreads ways.jcWays
  let prevJc ← prevFactorChecked ways.nThreads ways.jcWays
  let prevPrevJc ← prevFactorChecked ways.nThreads prevJc
  some ⟨nextIc, nextNextIc, prevIc, nextJc, prevJc, prevPrevJc⟩

/-- What `dlp_gemm_adjust_ic_jc_ways` measures before it decides. -/
structure WorkAround where
  mIc : Nat
  nJc : Nat
  curPanelWork : Nat
  mNextIc : Nat
  mPrevIc : Nat
  nNextJc : Nat
  nPrevJc : Nat
  nextIcPanelWork : Nat
  nextNextIcPanelWork : Nat
  nuModJcWays : Nat
  nuModPrevJcWays : Nat
  kFactor : Nat
  nJcModuloNR : Nat
  nPrevJcModuloNR : Nat
  nNextJcModuloNR : Nat
  deriving DecidableEq, Repr

/-- The measurements of `dlp_gemm_adjust_ic_jc_ways`, evaluated. -/
def workAroundChecked (m n k : Nat) (blksz : DlpGemmBlockSize) (ways : Ways)
    (around : Neighbours) : Option WorkAround := do
  let mu ← checkedDiv (m + blksz.MR - 1) blksz.MR
  let nu ← checkedDiv (n + blksz.NR - 1) blksz.NR
  let mIc ← checkedDiv m ways.icWays
  let nJc ← checkedDiv n ways.jcWays
  let curPanelWork ← panelWorkChecked mu nu ways.icWays ways.jcWays
  let mNextIc ← checkedDiv m around.nextIc
  let mPrevIc ← checkedDiv m around.prevIc
  let nNextJc ← checkedDiv n around.nextJc
  let nPrevJc ← checkedDiv n around.prevJc
  let nextIcPanelWork ← panelWorkChecked mu nu around.nextIc around.prevJc
  let nextNextIcPanelWork ←
    panelWorkChecked mu nu around.nextNextIc around.prevPrevJc
  let nuModJcWays ← checkedMod nu ways.jcWays
  let nuModPrevJcWays ← checkedMod nu around.prevJc
  let kFactor ← checkedDiv k blksz.KC
  let nJcModuloNR ← checkedMod nJc blksz.NR
  let nPrevJcModuloNR ← checkedMod nPrevJc blksz.NR
  let nNextJcModuloNR ← checkedMod nNextJc blksz.NR
  some ⟨mIc, nJc, curPanelWork, mNextIc, mPrevIc, nNextJc, nPrevJc,
    nextIcPanelWork, nextNextIcPanelWork, nuModJcWays, nuModPrevJcWays,
    kFactor, nJcModuloNR, nPrevJcModuloNR, nNextJcModuloNR⟩

/-- `can_increase_jc`. -/
def canIncreaseJc (blksz : DlpGemmBlockSize) (ways : Ways)
    (work : WorkAround) : Bool :=
  decide (ways.icWays > 1 ∧ ways.jcWays < ways.nThreads) &&
    (decide (work.nNextJc + work.mPrevIc < work.mIc + work.nJc) ||
      decide (((work.mIc ≤ blksz.MC ∧ work.mPrevIc ≤ blksz.MC) ∨
          work.mIc > blksz.MC) ∧
        work.nJc > blksz.NR ∧ work.nNextJc = blksz.NR))

/-- How often the split moves to the next larger `ic` factor:
`can_increase_ic` and `can_increase_ic_twice`. -/
def icIncreases (m n : Nat) (blksz : DlpGemmBlockSize) (ways : Ways)
    (around : Neighbours) (work : WorkAround) (mBoost : Nat) : Nat :=
  if ways.icWays < ways.nThreads ∧ ways.jcWays > 1 then
    if work.mNextIc + work.nPrevJc ≤ work.mIc + work.nJc then 1
    else if work.mIc > blksz.MC ∧ work.mNextIc ≤ blksz.MC ∧
        work.mNextIc ≥ blksz.MR ∧ work.kFactor > 4 then 1
    else if m > mBoost * n ∧ work.mIc ≥ blksz.MC * 2 ∧
        work.kFactor > 4 then 1
    else if work.nJcModuloNR ≠ 0 ∧ work.nPrevJcModuloNR = 0 ∧
        ¬ (canIncreaseJc blksz ways work = true ∧
          work.nNextJcModuloNR = 0) then 1
    else if (work.nuModJcWays ≠ 0 ∨
          (m > mBoost * n ∧ work.nuModPrevJcWays = 0)) ∧
        around.nextIc ≤ ways.nThreads ∧
        work.nextIcPanelWork < work.curPanelWork then
      if work.nuModPrevJcWays ≠ 0 ∧ around.nextNextIc ≤ ways.nThreads ∧
          work.nextNextIcPanelWork < work.nextIcPanelWork then 2
      else 1
    else 0
  else 0

/-- The move that `dlp_gemm_adjust_ic_jc_ways` decides on. -/
def moveWays (m n : Nat) (blksz : DlpGemmBlockSize) (ways : Ways)
    (around : Neighbours) (work : WorkAround) (mBoost : Nat) : Ways :=
  match icIncreases m n blksz ways around work mBoost with
  | 0 =>
      if canIncreaseJc blksz ways work ∧
          ((m ≥ n ∧ around.prevIc ≥ around.nextJc) ∨
            (m < n ∧ around.prevIc ≤ around.nextJc)) then
        { ways with icWays := around.prevIc, jcWays := around.nextJc }
      else ways
  | 1 => { ways with icWays := around.nextIc, jcWays := around.prevJc }
  | _ =>
      { ways with icWays := around.nextNextIc, jcWays := around.prevPrevJc }

/-- `dlp_gemm_adjust_ic_jc_ways`, evaluated. -/
def adjustIcJcWaysChecked (m n k : Nat) (blksz : DlpGemmBlockSize)
    (ways : Ways) (mBoost : Nat) : Option Ways := do
  let around ← neighboursChecked ways
  let work ← workAroundChecked m n k blksz ways around
  some (moveWays m n blksz ways around work mBoost)

/-- The neighbouring divisors that the searches find. -/
def neighbours (ways : Ways) : Neighbours where
  nextIc := dlpNextFactor ways.nThreads ways.icWays
  nextNextIc :=
    dlpNextFactor ways.nThreads (dlpNextFactor ways.nThreads ways.icWays)
  prevIc := dlpPrevFactor ways.nThreads ways.icWays
  nextJc := dlpNextFactor ways.nThreads ways.jcWays
  prevJc := dlpPrevFactor ways.nThreads ways.jcWays
  prevPrevJc :=
    dlpPrevFactor ways.nThreads (dlpPrevFactor ways.nThreads ways.jcWays)

theorem neighboursChecked_eq (ways : Ways) :
    neighboursChecked ways = some (neighbours ways) := by
  simp only [neighboursChecked, nextFactorChecked_eq, prevFactorChecked_eq,
    Option.bind_eq_bind, Option.bind_some, neighbours]

theorem exists_workAround {blksz : DlpGemmBlockSize}
    (blocks : PositiveBlocks blksz) (m n k : Nat) {ways : Ways}
    (positive : Positive ways) :
    ∃ work, workAroundChecked m n k blksz ways (neighbours ways) =
        some work ∧
      work.nuModPrevJcWays =
        (n + blksz.NR - 1) / blksz.NR % (neighbours ways).prevJc := by
  have nextIc : 0 < (neighbours ways).nextIc :=
    dlpNextFactor_pos ways.nThreads positive.ic
  have nextNextIc : 0 < (neighbours ways).nextNextIc :=
    dlpNextFactor_pos ways.nThreads nextIc
  have prevIc : 0 < (neighbours ways).prevIc :=
    dlpPrevFactor_pos positive.threads positive.ic
  have nextJc : 0 < (neighbours ways).nextJc :=
    dlpNextFactor_pos ways.nThreads positive.jc
  have prevJc : 0 < (neighbours ways).prevJc :=
    dlpPrevFactor_pos positive.threads positive.jc
  have prevPrevJc : 0 < (neighbours ways).prevPrevJc :=
    dlpPrevFactor_pos positive.threads prevJc
  unfold workAroundChecked
  simp only [checkedDiv_eq blocks.MR_pos, checkedDiv_eq blocks.NR_pos,
    checkedDiv_eq blocks.KC_pos, checkedMod_eq blocks.NR_pos,
    checkedDiv_eq positive.ic, checkedDiv_eq positive.jc,
    checkedMod_eq positive.jc, checkedDiv_eq nextIc, checkedDiv_eq prevIc,
    checkedDiv_eq nextJc, checkedDiv_eq prevJc, checkedMod_eq prevJc,
    panelWorkChecked_eq positive.ic positive.jc,
    panelWorkChecked_eq nextIc prevJc,
    panelWorkChecked_eq nextNextIc prevPrevJc, Option.bind_eq_bind,
    Option.bind_some]
  exact ⟨_, rfl, rfl⟩

/-- A step of the `ic` factor leaves threads in both directions, and a second
step needs a divisor below the first. -/
theorem icIncreases_spec {m n mBoost : Nat} {blksz : DlpGemmBlockSize}
    {ways : Ways} {around : Neighbours} {work : WorkAround}
    (moves : icIncreases m n blksz ways around work mBoost ≠ 0) :
    ways.icWays < ways.nThreads ∧
      (icIncreases m n blksz ways around work mBoost ≠ 1 →
        work.nuModPrevJcWays ≠ 0) := by
  unfold icIncreases at moves ⊢
  split_ifs at moves ⊢ with inside <;> simp_all

theorem moveWays_exact {m n mBoost : Nat} {blksz : DlpGemmBlockSize}
    {ways : Ways} {work : WorkAround} (valid : ways.Exact)
    (rest : work.nuModPrevJcWays =
      (n + blksz.NR - 1) / blksz.NR % (neighbours ways).prevJc) :
    (moveWays m n blksz ways (neighbours ways) work mBoost).Exact ∧
      (moveWays m n blksz ways (neighbours ways) work mBoost).nThreads =
        ways.nThreads := by
  have positive := valid.positive
  have up (proper : ways.icWays < ways.nThreads) :
      (neighbours ways).nextIc * (neighbours ways).prevJc = ways.nThreads :=
    neighbour_product positive valid.product proper
  have spec := @icIncreases_spec m n mBoost blksz ways (neighbours ways) work
  unfold moveWays
  generalize icIncreases m n blksz ways (neighbours ways) work mBoost =
    steps at spec
  match steps with
  | 0 =>
      change Ways.Exact (ite _ _ _) ∧ (ite _ _ _ : Ways).nThreads = _
      split
      next moves =>
        have proper : ways.jcWays < ways.nThreads := by
          have allowed := moves.1
          simp only [canIncreaseJc, Bool.and_eq_true,
            decide_eq_true_eq] at allowed
          exact allowed.1.2
        have down := neighbour_product positive
          ((Nat.mul_comm _ _).trans valid.product) proper
        exact ⟨⟨(Nat.mul_comm _ _).trans down, positive⟩, rfl⟩
      next => exact ⟨valid, rfl⟩
  | 1 => exact ⟨⟨up (spec Nat.one_ne_zero).1, positive⟩, rfl⟩
  | count + 2 =>
      rcases spec (by omega) with ⟨proper, twice⟩
      have pair := up proper
      have several : (neighbours ways).prevJc ≠ 1 := by
        intro one
        rw [one, Nat.mod_one] at rest
        exact twice (by omega) rest
      have inner : (neighbours ways).nextIc < ways.nThreads := by
        have nextPos : 0 < (neighbours ways).nextIc :=
          dlpNextFactor_pos _ (positive_of_exact valid).ic
        have prevPos : 0 < (neighbours ways).prevJc :=
          dlpPrevFactor_pos positive (positive_of_exact valid).jc
        calc
          (neighbours ways).nextIc < (neighbours ways).nextIc * 2 := by omega
          _ ≤ (neighbours ways).nextIc * (neighbours ways).prevJc :=
            Nat.mul_le_mul_left _ (by omega)
          _ = ways.nThreads := pair
      exact ⟨⟨neighbour_product positive pair inner, positive⟩, rfl⟩

theorem exists_adjustIcJcWays {blksz : DlpGemmBlockSize}
    (blocks : PositiveBlocks blksz) (m n k mBoost : Nat) {ways : Ways}
    (valid : ways.Exact) :
    ∃ adjusted, adjustIcJcWaysChecked m n k blksz ways mBoost =
        some adjusted ∧
      adjusted.Exact ∧ adjusted.nThreads = ways.nThreads := by
  rcases exists_workAround blocks m n k (positive_of_exact valid) with
    ⟨work, measured, rest⟩
  refine ⟨moveWays m n blksz ways (neighbours ways) work mBoost, ?_,
    moveWays_exact valid rest⟩
  rw [adjustIcJcWaysChecked, neighboursChecked_eq]
  simp only [Option.bind_eq_bind, Option.bind_some, measured]

/-! ## The factorizers -/

/-- The C factorizers, evaluated; `general` is what an operation does with the
thread count and the row blocks when no shortcut applies. -/
def getThreadingChecked (general : Nat → Nat → Option Ways) (m n : Nat)
    (rntm : DlpRntm) (MR NR : Nat) : Option Ways :=
  if rntm.icWays > 0 ∨ rntm.jcWays > 0 then
    let icWays := if rntm.icWays > 0 then rntm.icWays.toNat else 1
    let jcWays := if rntm.jcWays > 0 then rntm.jcWays.toNat else 1
    some ⟨jcWays * icWays, icWays, jcWays⟩
  else if rntm.numThreads > 1 then do
    let nThreads := rntm.numThreads.toNat
    let mrBlks ← checkedDiv (m + MR - 1) MR
    let nrBlks ← checkedDiv (n + NR - 1) NR
    let quotient ← checkedDiv nThreads mrBlks
    let deltaMrBlksAdj := nThreads - quotient * mrBlks
    let lowFreqThres := 6
    if n ≤ NR then some ⟨nThreads * 1, nThreads, 1⟩
    else if m ≤ MR then some ⟨1 * nThreads, 1, nThreads⟩
    else
      let nRest ← checkedMod n NR
      if nRest = 0 ∧ mrBlks * nrBlks ≤ nThreads ∧
          deltaMrBlksAdj < lowFreqThres then
        let jcWays ← checkedDiv nThreads mrBlks
        some ⟨mrBlks * jcWays, mrBlks, jcWays⟩
      else general nThreads mrBlks
  else some ⟨1, 1, 1⟩

/-- The seed partition of a thread count, evaluated. -/
def seedWaysChecked (nThreads m n : Nat) : Option Ways := do
  let seed ← partition2x2Checked nThreads m n
  some ⟨nThreads, seed.1, seed.2⟩

/-- The general case of the int8 factorizer, evaluated. -/
def panelGeneral (m n : Nat) (blksz : DlpGemmBlockSize)
    (nThreads mrBlks : Nat) : Option Ways := do
  let seed ← seedWaysChecked nThreads m n
  if mrBlks ≥ seed.icWays then
    pnlWrkHeurAdjustIcJcWaysChecked blksz.MR blksz.NR m n seed
  else some seed

/-- The general case of the F32 factorizer, evaluated. -/
def f32General (m n k : Nat) (blksz : DlpGemmBlockSize)
    (nThreads mrBlks : Nat) : Option Ways := do
  let seed ← seedWaysChecked nThreads m n
  if mrBlks ≥ seed.icWays then
    adjustIcJcWaysChecked m n k blksz seed 5
  else some seed

/-- `dlp_gemm_s32o32_get_threading`, evaluated. -/
def dlpGemmS32o32GetThreadingChecked (m n : Nat) (rntm : DlpRntm)
    (blksz : DlpGemmBlockSize) : Option Ways :=
  getThreadingChecked (panelGeneral m n blksz) m n rntm blksz.MR blksz.NR

/-- `dlp_gemm_f32f32f32of32_get_threading`, evaluated. -/
def dlpGemmF32f32f32of32GetThreadingChecked (m n k : Nat) (rntm : DlpRntm)
    (blksz : DlpGemmBlockSize) : Option Ways :=
  getThreadingChecked (f32General m n k blksz) m n rntm blksz.MR blksz.NR

/-- A general case that returns an exact split of its thread count. -/
def SplitsThreads (general : Nat → Nat → Option Ways) : Prop :=
  ∀ nThreads mrBlks, 0 < nThreads →
    ∃ ways, general nThreads mrBlks = some ways ∧ ways.Exact ∧
      ways.nThreads = nThreads

theorem seedWaysChecked_eq {nThreads : Nat} (positive : 0 < nThreads)
    (m n : Nat) :
    seedWaysChecked nThreads m n = some (seedWays nThreads m n) := by
  rw [seedWaysChecked, partition2x2Checked_eq positive]
  rfl

theorem panelGeneral_splits {blksz : DlpGemmBlockSize}
    (blocks : PositiveBlocks blksz) (m n : Nat) :
    SplitsThreads (panelGeneral m n blksz) := by
  intro nThreads mrBlks positive
  have seed := seedWays_exact positive m n
  rw [panelGeneral, seedWaysChecked_eq positive]
  simp only [Option.bind_eq_bind, Option.bind_some]
  split
  · exact ⟨_, pnlWrkHeurAdjustIcJcWaysChecked_eq blocks.MR_pos blocks.NR_pos m n
      (positive_of_exact seed), adjustIcJcWays_exact _ _ m n seed,
      adjustIcJcWays_nThreads _ _ m n _⟩
  · exact ⟨_, rfl, seed, rfl⟩

theorem f32General_splits {blksz : DlpGemmBlockSize}
    (blocks : PositiveBlocks blksz) (m n k : Nat) :
    SplitsThreads (f32General m n k blksz) := by
  intro nThreads mrBlks positive
  have seed := seedWays_exact positive m n
  rw [f32General, seedWaysChecked_eq positive]
  simp only [Option.bind_eq_bind, Option.bind_some]
  split
  · exact exists_adjustIcJcWays blocks m n k 5 seed
  · exact ⟨_, rfl, seed, rfl⟩

/-- The product of the pinned ways; an unset direction counts as one. -/
def pinnedThreads (rntm : DlpRntm) : Nat :=
  (if rntm.icWays > 0 then rntm.icWays.toNat else 1) *
    (if rntm.jcWays > 0 then rntm.jcWays.toNat else 1)

/-- A thread count without pinned ways, or pinned ways without a count. -/
def Requests (rntm : DlpRntm) : Prop :=
  (1 ≤ rntm.numThreads ∧ rntm.icWays ≤ 0 ∧ rntm.jcWays ≤ 0) ∨
    (rntm.numThreads = -1 ∧ (1 ≤ rntm.icWays ∨ 1 ≤ rntm.jcWays))

/-- A split with positive ways that multiply to a thread count, which is the
pinned one or at most the requested one. -/
structure WellFormed (rntm : DlpRntm) (ways : Ways) : Prop where
  ic : 1 ≤ ways.icWays
  jc : 1 ≤ ways.jcWays
  product : ways.icWays * ways.jcWays = ways.nThreads
  requested : rntm.icWays ≤ 0 → rntm.jcWays ≤ 0 →
    (ways.nThreads : Int) ≤ rntm.numThreads
  pinned : 1 ≤ rntm.icWays ∨ 1 ≤ rntm.jcWays →
    ways.nThreads = pinnedThreads rntm

theorem getThreadingChecked_wellFormed
    {general : Nat → Nat → Option Ways} (splits : SplitsThreads general)
    {m n MR NR : Nat} (rows : 1 ≤ m) (columns : 1 ≤ n) (rowBlock : 1 ≤ MR)
    (columnBlock : 1 ≤ NR) {rntm : DlpRntm} (requests : Requests rntm) :
    ∃ ways, getThreadingChecked general m n rntm MR NR = some ways ∧
      WellFormed rntm ways := by
  unfold getThreadingChecked
  by_cases pinned : rntm.icWays > 0 ∨ rntm.jcWays > 0
  · rw [if_pos pinned]
    refine ⟨_, rfl, ?_, ?_, Nat.mul_comm _ _, ?_, fun _ => Nat.mul_comm _ _⟩
    · dsimp only
      split <;> omega
    · dsimp only
      split <;> omega
    · intro icUnset jcUnset
      omega
  · rw [if_neg pinned]
    have count : 1 ≤ rntm.numThreads := by
      rcases requests with ⟨count, -⟩ | ⟨-, ways⟩ <;> omega
    have wellFormed {ways : Ways} (valid : ways.Exact)
        (bounded : ways.nThreads ≤ rntm.numThreads.toNat) :
        WellFormed rntm ways := by
      have positive := positive_of_exact valid
      exact ⟨positive.ic, positive.jc, valid.product,
        fun _ _ => by omega, fun set => absurd set pinned⟩
    by_cases several : rntm.numThreads > 1
    · have threads : 0 < rntm.numThreads.toNat := by omega
      have mrBlks := blocks_pos rows rowBlock
      have nrBlks := blocks_pos columns columnBlock
      rw [if_pos several]
      simp only [checkedDiv_eq (show 0 < MR from rowBlock),
        checkedDiv_eq (show 0 < NR from columnBlock), checkedDiv_eq mrBlks,
        checkedMod_eq (show 0 < NR from columnBlock), Option.bind_eq_bind,
        Option.bind_some]
      split_ifs with narrow flat exactFit
      · exact ⟨_, rfl, wellFormed ⟨rfl, by simpa using threads⟩
          (Nat.mul_one _).le⟩
      · exact ⟨_, rfl, wellFormed ⟨rfl, by simpa using threads⟩
          (Nat.one_mul _).le⟩
      · have room : 0 < rntm.numThreads.toNat / ((m + MR - 1) / MR) :=
          Nat.div_pos ((Nat.le_mul_of_pos_right _ nrBlks).trans
            exactFit.2.1) mrBlks
        exact ⟨_, rfl, wellFormed ⟨rfl, Nat.mul_pos mrBlks room⟩
          (Nat.mul_div_le _ _)⟩
      · rcases splits _ ((m + MR - 1) / MR) threads with
          ⟨ways, split, valid, same⟩
        exact ⟨ways, split, wellFormed valid same.le⟩
    · rw [if_neg several]
      exact ⟨_, rfl, wellFormed ⟨rfl, Nat.one_pos⟩ (by
        change 1 ≤ rntm.numThreads.toNat
        omega)⟩

/-! ## The batch factorizers -/

/-- `dlp_calculate_n_threads_per_gemm`, evaluated. -/
def calculateNThreadsPerGemmChecked (groupSize : Int) (rntm : DlpRntm) :
    Option BatchShare :=
  if groupSize ≤ 0 then some ⟨1, 1, 1⟩
  else
    let nThreads := rntm.numThreads
    let nGemmsInParallel : Int :=
      if nThreads = 1 then 1 else min nThreads groupSize
    if nGemmsInParallel = 0 then none
    else some ⟨nThreads, nGemmsInParallel, nThreads.tdiv nGemmsInParallel⟩

/-- The ways of one product among its share of the threads, evaluated;
`general` receives the threads and the row and column blocks. -/
def waysPerGemmChecked (general : Nat → Nat → Nat → Option Ways)
    (perGemm m n : Nat) (blksz : DlpGemmBlockSize) : Option Ways := do
  let mrBlks ← checkedDiv (m + blksz.MR - 1) blksz.MR
  let nrBlks ← checkedDiv (n + blksz.NR - 1) blksz.NR
  if n ≤ blksz.NR then some ⟨perGemm * 1, perGemm, 1⟩
  else if m ≤ blksz.MR then some ⟨1 * perGemm, 1, perGemm⟩
  else general perGemm mrBlks nrBlks

/-- The batch factorizers, evaluated. -/
def batchGetThreadingChecked (general : Nat → Nat → Nat → Option Ways)
    (groupSize : Int) (m n : Nat) (rntm : DlpRntm)
    (blksz : DlpGemmBlockSize) : Option BatchThreading := do
  let share ← calculateNThreadsPerGemmChecked groupSize rntm
  if share.nThreadsPerGemm > 1 then
    let perGemm := share.nThreadsPerGemm.toNat
    let nGemms := share.nGemmsInParallel.toNat
    let ways ← waysPerGemmChecked general perGemm m n blksz
    some ⟨nGemms * ways.icWays * ways.jcWays, nGemms, ways.nThreads,
      ways.icWays, ways.jcWays⟩
  else if share.nGemmsInParallel > 1 then
    let nGemms := share.nGemmsInParallel.toNat
    some ⟨nGemms, nGemms, 1, 1, 1⟩
  else some ⟨1, 1, 1, 1, 1⟩

/-- `batch_dlp_gemm_s32o32_get_threading`, evaluated. -/
def batchS32o32GetThreadingChecked (groupSize : Int) (m n : Nat)
    (rntm : DlpRntm) (blksz : DlpGemmBlockSize) : Option BatchThreading :=
  batchGetThreadingChecked (fun perGemm mrBlks _ =>
    panelGeneral m n blksz perGemm mrBlks) groupSize m n rntm blksz

/-- `batch_dlp_gemm_bf16bf16f32of32_get_threading`, evaluated. -/
def batchBf16bf16f32of32GetThreadingChecked (groupSize : Int) (m n : Nat)
    (rntm : DlpRntm) (blksz : DlpGemmBlockSize) : Option BatchThreading :=
  batchGetThreadingChecked (fun perGemm mrBlks _ =>
    panelGeneral m n blksz perGemm mrBlks) groupSize m n rntm blksz

/-- The general case of the F32 batch factorizer, evaluated. -/
def batchF32General (m n k : Nat) (blksz : DlpGemmBlockSize)
    (perGemm mrBlks nrBlks : Nat) : Option Ways := do
  let seed ← seedWaysChecked perGemm m n
  if mrBlks ≥ seed.icWays ∧ nrBlks ≥ seed.jcWays then
    adjustIcJcWaysChecked m n k blksz seed 5
  else some seed

/-- What the F32 batch factorizer reads beside the block sizes. -/
structure SupPath where
  supThres : DlpGemmSupThreshold
  pageSize : Nat
  avx512 : Bool
  deriving DecidableEq, Repr

/-- `batch_dlp_gemm_f32f32f32of32_get_threading`, evaluated: the threading and
whether the runtime is told to pack both operands. -/
def batchF32f32f32of32GetThreadingChecked (groupSize : Int) (m n k : Nat)
    (rntm : DlpRntm) (blksz : DlpGemmBlockSize) (path : SupPath) :
    Option (BatchThreading × Bool) := do
  let threading ← batchGetThreadingChecked (batchF32General m n k blksz)
    groupSize m n rntm blksz
  let mIc ← checkedDiv m threading.icWays
  let nJc ← checkedDiv n threading.jcWays
  let pageSizeBFloatx2 := 2 * (path.pageSize / 4)
  let packs :=
    decide (path.supThres.MT ≤ m ∧ path.supThres.NT ≤ n ∧
      path.supThres.KT ≤ k) &&
    (decide (k ≥ pageSizeBFloatx2 ∧ path.supThres.MT.tdiv 2 < mIc ∧
        path.supThres.NT ≤ nJc) ||
      (!path.avx512 && decide (k > pageSizeBFloatx2)))
  some (threading, packs)

/-- Products in parallel, each on a team of its own that its ways factor. -/
structure BatchWellFormed (groupSize : Int) (rntm : DlpRntm)
    (threading : BatchThreading) : Prop where
  ic : 1 ≤ threading.icWays
  jc : 1 ≤ threading.jcWays
  parallel : 1 ≤ threading.nGemmsInParallel
  group : (threading.nGemmsInParallel : Int) ≤ max 1 groupSize
  perGemm : threading.nThreadsPerGemm =
    threading.icWays * threading.jcWays
  product : threading.nThreads =
    threading.nGemmsInParallel * threading.nThreadsPerGemm
  requested : (threading.nThreads : Int) ≤ max 1 rntm.numThreads

/-- The threads of a group, or no threads to share. -/
structure Shares (groupSize : Int) (rntm : DlpRntm) (share : BatchShare) :
    Prop where
  parallel : 1 < share.nThreadsPerGemm → 1 ≤ share.nGemmsInParallel
  group : share.nGemmsInParallel ≤ max 1 groupSize
  bounded : 1 ≤ share.nGemmsInParallel →
    share.nGemmsInParallel * share.nThreadsPerGemm ≤ max 1 rntm.numThreads
  threads : share.nGemmsInParallel ≤ max 1 rntm.numThreads

theorem exists_share {groupSize : Int} {rntm : DlpRntm}
    (requests : Requests rntm) :
    ∃ share, calculateNThreadsPerGemmChecked groupSize rntm = some share ∧
      Shares groupSize rntm share := by
  unfold calculateNThreadsPerGemmChecked
  by_cases empty : groupSize ≤ 0
  · rw [if_pos empty]
    exact ⟨_, rfl, fun _ => le_rfl, le_max_left _ _,
      fun _ => le_max_left _ _, le_max_left _ _⟩
  · rw [if_neg empty]
    dsimp only
    rcases requests with ⟨count, -⟩ | ⟨unset, -⟩
    · have parallel : (if rntm.numThreads = 1 then (1 : Int)
          else min rntm.numThreads groupSize) =
            min rntm.numThreads groupSize := by
        split_ifs <;> omega
      rw [parallel, if_neg (by omega)]
      have positive : 0 < min rntm.numThreads groupSize := by omega
      refine ⟨_, rfl, fun _ => positive, ?_, fun _ => ?_, ?_⟩
      · exact (min_le_right _ _).trans (le_max_right _ _)
      · dsimp only
        rw [Int.tdiv_eq_ediv_of_nonneg (by omega)]
        exact (Int.mul_ediv_self_le positive.ne').trans (le_max_right _ _)
      · exact (min_le_left _ _).trans (le_max_right _ _)
    · have parallel : (if rntm.numThreads = 1 then (1 : Int)
          else min rntm.numThreads groupSize) = -1 := by
        split_ifs <;> omega
      rw [parallel, if_neg (by omega), unset]
      exact ⟨_, rfl, fun several => absurd several (by decide),
        by dsimp only; omega, fun positive => absurd positive (by decide),
        by dsimp only; omega⟩

/-- A general batch case that returns an exact split of its threads. -/
def SplitsShare (general : Nat → Nat → Nat → Option Ways) : Prop :=
  ∀ nrBlks, SplitsThreads fun perGemm mrBlks => general perGemm mrBlks nrBlks

theorem batchF32General_splits {blksz : DlpGemmBlockSize}
    (blocks : PositiveBlocks blksz) (m n k : Nat) :
    SplitsShare (batchF32General m n k blksz) := by
  intro nrBlks perGemm mrBlks positive
  have seed := seedWays_exact positive m n
  dsimp only [batchF32General]
  rw [seedWaysChecked_eq positive]
  simp only [Option.bind_eq_bind, Option.bind_some]
  split
  · exact exists_adjustIcJcWays blocks m n k 5 seed
  · exact ⟨_, rfl, seed, rfl⟩

theorem exists_waysPerGemm {general : Nat → Nat → Nat → Option Ways}
    (splits : SplitsShare general) (m n : Nat) {blksz : DlpGemmBlockSize}
    (blocks : PositiveBlocks blksz) {perGemm : Nat} (threads : 0 < perGemm) :
    ∃ ways, waysPerGemmChecked general perGemm m n blksz = some ways ∧
      ways.Exact ∧ ways.nThreads = perGemm := by
  rw [waysPerGemmChecked, checkedDiv_eq blocks.MR_pos, checkedDiv_eq blocks.NR_pos]
  simp only [Option.bind_eq_bind, Option.bind_some]
  split_ifs
  · exact ⟨_, rfl, ⟨rfl, by simpa using threads⟩, Nat.mul_one _⟩
  · exact ⟨_, rfl, ⟨rfl, by simpa using threads⟩, Nat.one_mul _⟩
  · exact splits _ _ _ threads

theorem batchGetThreadingChecked_wellFormed
    {general : Nat → Nat → Nat → Option Ways} (splits : SplitsShare general)
    (groupSize : Int) (m n : Nat) {blksz : DlpGemmBlockSize}
    (blocks : PositiveBlocks blksz) {rntm : DlpRntm}
    (requests : Requests rntm) :
    ∃ threading, batchGetThreadingChecked general groupSize m n rntm blksz =
        some threading ∧
      BatchWellFormed groupSize rntm threading := by
  rcases @exists_share groupSize rntm requests with ⟨share, shared, shares⟩
  unfold batchGetThreadingChecked
  rw [shared]
  simp only [Option.bind_eq_bind, Option.bind_some]
  by_cases several : share.nThreadsPerGemm > 1
  · have parallel := shares.parallel several
    have bounded := shares.bounded parallel
    have threads : 0 < share.nThreadsPerGemm.toNat := by omega
    rcases exists_waysPerGemm splits m n blocks threads with
      ⟨ways, split, valid, same⟩
    have positive := positive_of_exact valid
    rw [if_pos several, split]
    refine ⟨_, rfl, positive.ic, positive.jc, ?_, ?_,
      valid.product.symm, ?_, ?_⟩
    · change 1 ≤ share.nGemmsInParallel.toNat
      omega
    · change (share.nGemmsInParallel.toNat : Int) ≤ _
      rw [Int.toNat_of_nonneg (by omega)]
      exact shares.group
    · change _ * ways.icWays * ways.jcWays = _ * ways.nThreads
      rw [Nat.mul_assoc, valid.product]
    · change ((share.nGemmsInParallel.toNat * ways.icWays * ways.jcWays :
        Nat) : Int) ≤ _
      rw [Nat.mul_assoc, valid.product, same, Nat.cast_mul,
        Int.toNat_of_nonneg (by omega), Int.toNat_of_nonneg (by omega)]
      exact bounded
  · rw [if_neg several]
    by_cases parallel : share.nGemmsInParallel > 1
    · rw [if_pos parallel]
      have count : (share.nGemmsInParallel.toNat : Int) =
          share.nGemmsInParallel := Int.toNat_of_nonneg (by omega)
      refine ⟨_, rfl, le_rfl, le_rfl, ?_, ?_, rfl, (Nat.mul_one _).symm, ?_⟩
      · change 1 ≤ share.nGemmsInParallel.toNat
        omega
      · exact count.trans_le shares.group
      · exact count.trans_le shares.threads
    · rw [if_neg parallel]
      exact ⟨_, rfl, le_rfl, le_rfl, le_rfl, le_max_left _ _, rfl, rfl,
        le_max_left _ _⟩

/-! ## The evaluations give the total functions -/

theorem panelGeneral_eq {blksz : DlpGemmBlockSize}
    (blocks : PositiveBlocks blksz) (m n : Nat) {nThreads : Nat}
    (positive : 0 < nThreads) :
    panelGeneral m n blksz nThreads ((m + blksz.MR - 1) / blksz.MR) =
      some (adjustIfRoom blksz.MR blksz.NR m n (seedWays nThreads m n)) := by
  have seed := positive_of_exact (seedWays_exact positive m n)
  rw [panelGeneral, seedWaysChecked_eq positive, adjustIfRoom]
  simp only [Option.bind_eq_bind, Option.bind_some,
    pnlWrkHeurAdjustIcJcWaysChecked_eq blocks.MR_pos blocks.NR_pos m n seed]
  split <;> rfl

/-- The int8 factorizer evaluates to the total function. -/
theorem s32o32GetThreadingChecked_eq {m : Nat} {blksz : DlpGemmBlockSize}
    (rows : 1 ≤ m) (n : Nat) (blocks : PositiveBlocks blksz)
    (rntm : DlpRntm) :
    dlpGemmS32o32GetThreadingChecked m n rntm blksz =
      some (dlpGemmS32o32GetThreading m n rntm blksz.MR blksz.NR) := by
  have mrBlks := blocks_pos rows blocks.MR_pos
  unfold dlpGemmS32o32GetThreadingChecked getThreadingChecked
    dlpGemmS32o32GetThreading getThreadingWith
  by_cases several : rntm.numThreads > 1
  · simp only [checkedDiv_eq blocks.MR_pos, checkedDiv_eq blocks.NR_pos,
      checkedDiv_eq mrBlks, checkedMod_eq blocks.NR_pos,
      panelGeneral_eq blocks m n (show 0 < rntm.numThreads.toNat by omega),
      Option.bind_eq_bind, Option.bind_some]
    split_ifs <;> rfl
  · simp only [if_neg several]
    split_ifs <;> rfl

theorem waysPerGemmChecked_eq {blksz : DlpGemmBlockSize}
    (blocks : PositiveBlocks blksz) (m n : Nat) {perGemm : Nat}
    (positive : 0 < perGemm) :
    waysPerGemmChecked (fun perGemm mrBlks _ =>
        panelGeneral m n blksz perGemm mrBlks) perGemm m n blksz =
      some (waysPerGemm perGemm m n blksz) := by
  rw [waysPerGemmChecked, checkedDiv_eq blocks.MR_pos, checkedDiv_eq blocks.NR_pos]
  simp only [Option.bind_eq_bind, Option.bind_some,
    panelGeneral_eq blocks m n positive]
  unfold waysPerGemm
  split_ifs <;> rfl

/-- The BF16 batch factorizer evaluates to the total function. -/
theorem batchBf16GetThreadingChecked_eq (groupSize : Int) (m n : Nat)
    {blksz : DlpGemmBlockSize} (blocks : PositiveBlocks blksz)
    {rntm : DlpRntm} (requests : Requests rntm) :
    batchBf16bf16f32of32GetThreadingChecked groupSize m n rntm blksz =
      some (batchDlpGemmBf16bf16f32of32GetThreading groupSize.toNat m n rntm
        blksz) := by
  have share : calculateNThreadsPerGemmChecked groupSize rntm =
      some (dlpCalculateNThreadsPerGemm groupSize.toNat rntm) := by
    unfold calculateNThreadsPerGemmChecked dlpCalculateNThreadsPerGemm
    by_cases empty : groupSize ≤ 0
    · rw [if_pos empty, if_pos (show groupSize.toNat = 0 by omega)]
    · have counted : (groupSize.toNat : Int) = groupSize := by omega
      rw [if_neg empty, if_neg (show ¬ groupSize.toNat = 0 by omega), counted]
      have nonzero : (if rntm.numThreads = 1 then (1 : Int)
          else min rntm.numThreads groupSize) ≠ 0 := by
        rcases requests with ⟨count, -⟩ | ⟨unset, -⟩ <;> split_ifs <;> omega
      exact if_neg nonzero
  unfold batchBf16bf16f32of32GetThreadingChecked batchGetThreadingChecked
    batchDlpGemmBf16bf16f32of32GetThreading
  rw [share]
  simp only [Option.bind_eq_bind, Option.bind_some]
  by_cases several : (dlpCalculateNThreadsPerGemm groupSize.toNat
      rntm).nThreadsPerGemm > 1
  · rw [if_pos several, if_pos several, waysPerGemmChecked_eq blocks m n
      (show 0 < Int.toNat _ by omega)]
    rfl
  · rw [if_neg several, if_neg several]
    split <;> rfl

/--
Every factorizer returns: no division of its evaluation meets a zero divisor
and no search runs on.  The ways are positive and multiply to the thread
count, which is the pinned one or at most the requested one; a batch runs at
most one product for each member of the group and at most the requested
threads.
-/
theorem factorizations_wellFormed {m n : Nat} {blksz : DlpGemmBlockSize}
    (rows : 1 ≤ m) (columns : 1 ≤ n) (blocks : PositiveBlocks blksz)
    {rntm : DlpRntm} (requests : Requests rntm) (k : Nat) (groupSize : Int)
    (path : SupPath) :
    (∃ ways, dlpGemmF32f32f32of32GetThreadingChecked m n k rntm blksz =
        some ways ∧ WellFormed rntm ways) ∧
    (∃ ways, dlpGemmS32o32GetThreadingChecked m n rntm blksz = some ways ∧
        WellFormed rntm ways) ∧
    (∃ threading, batchS32o32GetThreadingChecked groupSize m n rntm blksz =
        some threading ∧ BatchWellFormed groupSize rntm threading) ∧
    (∃ threading, batchBf16bf16f32of32GetThreadingChecked groupSize m n rntm
        blksz = some threading ∧
      BatchWellFormed groupSize rntm threading) ∧
    (∃ threading packs, batchF32f32f32of32GetThreadingChecked groupSize m n k
        rntm blksz path = some (threading, packs) ∧
      BatchWellFormed groupSize rntm threading) := by
  have panels : SplitsShare fun perGemm mrBlks _ =>
      panelGeneral m n blksz perGemm mrBlks :=
    fun _ => panelGeneral_splits blocks m n
  refine ⟨?_, ?_, ?_, ?_, ?_⟩
  · exact getThreadingChecked_wellFormed (f32General_splits blocks m n k)
      rows columns blocks.MR_pos blocks.NR_pos requests
  · exact getThreadingChecked_wellFormed (panelGeneral_splits blocks m n)
      rows columns blocks.MR_pos blocks.NR_pos requests
  · exact batchGetThreadingChecked_wellFormed panels groupSize m n blocks
      requests
  · exact batchGetThreadingChecked_wellFormed panels groupSize m n blocks
      requests
  · rcases batchGetThreadingChecked_wellFormed
        (batchF32General_splits blocks m n k) groupSize m n blocks
        requests with ⟨threading, computed, wellFormed⟩
    unfold batchF32f32f32of32GetThreadingChecked
    simp only [computed, checkedDiv_eq (show 0 < _ from wellFormed.ic),
      checkedDiv_eq (show 0 < _ from wellFormed.jc), Option.bind_eq_bind,
      Option.bind_some]
    exact ⟨threading, _, rfl, wellFormed⟩

/-- Twelve threads for five F32 products of a 100 by 1000 output. -/
theorem factorizations_wellFormed_twelve :
    (∃ ways, dlpGemmF32f32f32of32GetThreadingChecked 100 1000 64
        ⟨12, 0, 0⟩ ⟨192, 8064, 512, 6, 64⟩ = some ways ∧
      WellFormed ⟨12, 0, 0⟩ ways) ∧
    ∃ threading packs, batchF32f32f32of32GetThreadingChecked 5 100 1000 64
        ⟨12, 0, 0⟩ ⟨192, 8064, 512, 6, 64⟩
        ⟨⟨512, 200, 240⟩, 4096, true⟩ = some (threading, packs) ∧
      BatchWellFormed 5 ⟨12, 0, 0⟩ threading := by
  have wellFormed := @factorizations_wellFormed 100 1000
    ⟨192, 8064, 512, 6, 64⟩ (by decide) (by decide)
    ⟨by decide, by decide, by decide, by decide, by decide⟩ ⟨12, 0, 0⟩
    (Or.inl ⟨by decide, by decide, by decide⟩) 64 5
    ⟨⟨512, 200, 240⟩, 4096, true⟩
  exact ⟨wellFormed.1, wellFormed.2.2.2.2⟩

end AoclDlp.Threading.CheckedWays
