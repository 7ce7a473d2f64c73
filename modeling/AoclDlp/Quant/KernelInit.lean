import AoclDlp.DecisionEngine.Scaling
import AoclDlp.DecisionEngine.ShapeModel
import AoclDlp.Quant.GroupSize

/-!
# Kernel initialisation of the quantised entry points

The quantised backends first try a GEMV kernel when one output dimension is
one.  The attempt is refused unless B is reordered and the group size divides
both K and the K block of the context, and then the backend falls back to a
GEMM kernel of the context's own tile.
-/

namespace AoclDlp.Quant.KernelInit

open AoclDlp.Config.BlockSize
open AoclDlp.Config.LocalContext
open AoclDlp.DecisionEngine.Scaling
open AoclDlp.DecisionEngine.ShapeModel
open AoclDlp.DecisionEngine.ThreadPartition
open AoclDlp.Foundations.Rounding
open AoclDlp.Quant.GroupSize

/-! ## The quantised backends -/

/-- The quantised backends. -/
inductive QuantBackend where
  | s8
  | s8s4
  deriving DecidableEq, Repr

/-- The arguments of a quantised call that reach the decision engine; the
group size is the one in the operation of A. -/
structure QuantCall where
  m : Nat
  n : Nat
  k : Nat
  mtagA : MemoryTag
  mtagB : MemoryTag
  alpha : Int
  beta : Int
  groupSize : Nat
  cDownscale : DlpType
  deriving DecidableEq, Repr

/-- The fields of `quantKernelInfo` that the init and the frames read. -/
structure QuantKernelInfo where
  dims : KernelDims
  kUnroll : Nat
  kc : Nat
  alphaScalingType : ScalingType
  betaScalingType : ScalingType
  widenDequantInKernel : Bool
  deriving DecidableEq, Repr

/-- The state of the quantised backends, and which kernels their generators
can emit. -/
structure QuantEngine where
  canGenerateKernelInfo : QuantBackend → Bool
  jitQuantKernel : QuantBackend → QuantCall → QuantKernelInfo → Bool

/-- `gemvDispatchGateHolds`. -/
def gemvDispatchGateHolds (call : QuantCall) (kcHint : Nat) : Bool :=
  if call.cDownscale ≠ .f32 ∧ call.cDownscale ≠ .bf16 then false
  else if call.mtagB ≠ .reordered then false
  else
    let groupSize := normalisedGroupSize call.groupSize call.k
    decide (0 < groupSize) && decide (call.k % groupSize = 0) &&
      decide (kcHint % groupSize = 0)

/-- The tile of a GEMV kernel; a width that the M1 generator does not take
refuses it. -/
def gemvDims (n nrHint : Nat) : Option KernelDims :=
  if n = 1 then some ⟨16, 1⟩
  else if nrHint = 0 ∨ nrHint % 16 ≠ 0 ∨ 64 < nrHint then none
  else some ⟨1, nrHint⟩

/-- `getGemvQuantKernelInfoForInputFastPath`. -/
def gemvQuantKernelInfo (call : QuantCall) (nrHint kcHint : Nat) :
    Option QuantKernelInfo :=
  if gemvDispatchGateHolds call kcHint then
    (gemvDims call.n nrHint).map fun dims =>
      { dims := dims
        kUnroll := if call.n = 1 then 1 else 4
        kc := kcHint
        alphaScalingType := alphaScalingType call.alpha
        betaScalingType := betaScalingType call.beta call.k kcHint
        widenDequantInKernel := false }
  else none

/-- Where the S8S4 backend lets the kernel widen the nibbles of B. -/
def useInKernel (call : QuantCall) (mr icWays : Nat) : Bool :=
  let mrBlks := (call.m + mr - 1) / mr
  let mPerIc := (mrBlks + icWays - 1) / icWays * mr
  decide (call.mtagB = .reordered) && decide (1 < call.m) &&
    decide (1 < call.n) && decide (mPerIc ≤ mr)

/-- `getGemmQuantKernelInfoForInputFastPath`, with the thread record it
leaves. -/
def gemmQuantKernelInfo (backend : QuantBackend) (call : QuantCall)
    (mrHint nrHint kcHint : Nat) (threadInfo : DlpGemmThreadInfo) :
    QuantKernelInfo × DlpGemmThreadInfo :=
  let info : QuantKernelInfo :=
    { dims := ⟨mrHint, nrHint⟩
      kUnroll := if 256 ≤ call.k then 2 else 1
      kc := kcHint
      alphaScalingType := alphaScalingType call.alpha
      betaScalingType := betaScalingType call.beta call.k kcHint
      widenDequantInKernel := false }
  match backend with
  | .s8 => (info, threadInfo)
  | .s8s4 =>
      let ways := resolveWays int8AdjustWays mrHint nrHint call.m call.n
        threadInfo.numThreads threadInfo.icWays threadInfo.jcWays
      ({ info with
          widenDequantInKernel := useInKernel call mrHint ways.icWays },
        ⟨ways.nThreads, ways.icWays, ways.jcWays⟩)

/-- `dlp_get_gemm_quant_kernelInfo_by_dtype`: a GEMV kernel where one output
dimension is one and the attempt is not refused, else a GEMM kernel. -/
def dlpGetGemmQuantKernelInfoByDtype (engine : QuantEngine)
    (backend : QuantBackend) (call : QuantCall)
    (mrHint nrHint kcHint : Nat) (threadInfo : DlpGemmThreadInfo) :
    Option (QuantKernelInfo × DlpGemmThreadInfo) :=
  if engine.canGenerateKernelInfo backend then
    match if call.m = 1 ∨ call.n = 1 then
        gemvQuantKernelInfo call nrHint kcHint else none with
    | some info => some (info, threadInfo)
    | none =>
        some (gemmQuantKernelInfo backend call mrHint nrHint kcHint
          threadInfo)
  else none

/-- `dlp_init_and_get_gemm_quant_kernel_hndl`: the context it leaves, with
the kernel that the handle holds. -/
def dlpInitAndGetGemmQuantKernelHndl (engine : QuantEngine)
    (backend : QuantBackend) (call : QuantCall) (cntx : DlpGemmCntx) :
    DlpGemmCntx × Option QuantKernelInfo :=
  match dlpGetGemmQuantKernelInfoByDtype engine backend call cntx.blksz.MR
      cntx.blksz.NR cntx.blksz.KC cntx.threadInfo with
  | none => (cntx, none)
  | some (info, threadInfo) =>
      if info.dims.mr = 0 ∨ info.dims.nr = 0 then
        ({ cntx with threadInfo := threadInfo }, none)
      else
        ({ cntx with
            threadInfo := threadInfo
            blksz :=
              { cntx.blksz with
                KC := info.kc
                MC := roundUp cntx.blksz.MC info.dims.mr
                NC := roundUp cntx.blksz.NC info.dims.nr } },
          if engine.jitQuantKernel backend call info then some info
          else none)

/-- The kernel is one that the frames run with GEMV parameters. -/
def QuantKernelInfo.IsGemvKey (info : QuantKernelInfo) (m n : Nat) : Prop :=
  (m = 1 ∧ info.dims.mr = 1) ∨ (n = 1 ∧ info.dims.nr = 1)

instance (info : QuantKernelInfo) (m n : Nat) :
    Decidable (info.IsGemvKey m n) :=
  inferInstanceAs (Decidable (_ ∨ _))

/-! ## What the init settles -/

/-- The widths that the M1 generator takes. -/
def GemvWidth (nrHint : Nat) : Prop :=
  0 < nrHint ∧ 16 ∣ nrHint ∧ nrHint ≤ 64

theorem gemvDims_row {n nrHint : Nat} (wide : n ≠ 1) :
    (GemvWidth nrHint ∧ gemvDims n nrHint = some ⟨1, nrHint⟩) ∨
      (¬ GemvWidth nrHint ∧ gemvDims n nrHint = none) := by
  unfold gemvDims GemvWidth
  rw [if_neg wide]
  split_ifs with refused
  · exact Or.inr ⟨by omega, rfl⟩
  · exact Or.inl ⟨by omega, rfl⟩

/-- The gate in terms of the normalised group size. -/
theorem gemvDispatchGateHolds_iff {call : QuantCall}
    {groupSize kcHint : Nat}
    (stored : call.cDownscale = .f32 ∨ call.cDownscale = .bf16)
    (normalised : normalisedGroupSize call.groupSize call.k = groupSize)
    (positive : 0 < groupSize) :
    gemvDispatchGateHolds call kcHint = true ↔
      call.mtagB = .reordered ∧ groupSize ∣ call.k ∧ groupSize ∣ kcHint := by
  have store : ¬ (call.cDownscale ≠ .f32 ∧ call.cDownscale ≠ .bf16) := by
    rcases stored with same | same <;> simp [same]
  unfold gemvDispatchGateHolds
  rw [if_neg store]
  by_cases tag : call.mtagB = .reordered
  · simp [tag, normalised, positive, Nat.dvd_iff_mod_eq_zero]
  · simp [tag]

/-- The tile that the backends settle: the GEMV tile where the attempt is
not refused, else the hinted one. -/
def settledDims (call : QuantCall) (mrHint nrHint kcHint : Nat) :
    KernelDims :=
  if (call.m = 1 ∨ call.n = 1) ∧ gemvDispatchGateHolds call kcHint = true
  then (gemvDims call.n nrHint).getD ⟨mrHint, nrHint⟩
  else ⟨mrHint, nrHint⟩

/-- What the backends return for a call. -/
structure Returned (call : QuantCall) (mrHint nrHint kcHint : Nat)
    (info : QuantKernelInfo) : Prop where
  dims : info.dims = settledDims call mrHint nrHint kcHint
  kc : info.kc = kcHint
  beta : info.betaScalingType = betaScalingType call.beta call.k kcHint

theorem gemm_returned (backend : QuantBackend) (call : QuantCall)
    (mrHint nrHint kcHint : Nat) (threads : DlpGemmThreadInfo)
    (settles : settledDims call mrHint nrHint kcHint = ⟨mrHint, nrHint⟩) :
    Returned call mrHint nrHint kcHint
      (gemmQuantKernelInfo backend call mrHint nrHint kcHint threads).1 := by
  cases backend with
  | s8 => exact ⟨settles.symm, rfl, rfl⟩
  | s8s4 => exact ⟨settles.symm, rfl, rfl⟩

theorem gemv_returned {call : QuantCall} {mrHint nrHint kcHint : Nat}
    {info : QuantKernelInfo} (vector : call.m = 1 ∨ call.n = 1)
    (attempt : gemvQuantKernelInfo call nrHint kcHint = some info) :
    Returned call mrHint nrHint kcHint info := by
  unfold gemvQuantKernelInfo at attempt
  split at attempt
  next gate =>
    rcases Option.map_eq_some_iff.mp attempt with ⟨dims, tile, rfl⟩
    refine ⟨?_, rfl, rfl⟩
    change dims = settledDims call mrHint nrHint kcHint
    rw [settledDims, if_pos ⟨vector, gate⟩, tile, Option.getD_some]
  next => cases attempt

/-- A refused attempt settles the hinted tile. -/
theorem settledDims_of_refused {call : QuantCall}
    {mrHint nrHint kcHint : Nat}
    (refused : call.m = 1 ∨ call.n = 1 →
      gemvQuantKernelInfo call nrHint kcHint = none) :
    settledDims call mrHint nrHint kcHint = ⟨mrHint, nrHint⟩ := by
  unfold settledDims
  split_ifs with attempted
  · have none := refused attempted.1
    rw [gemvQuantKernelInfo, if_pos attempted.2, Option.map_eq_none_iff] at none
    rw [none, Option.getD_none]
  · rfl

theorem returned_of_some {engine : QuantEngine} {backend : QuantBackend}
    {call : QuantCall} {mrHint nrHint kcHint : Nat}
    {threads threads' : DlpGemmThreadInfo} {info : QuantKernelInfo}
    (returns : dlpGetGemmQuantKernelInfoByDtype engine backend call mrHint
      nrHint kcHint threads = some (info, threads')) :
    Returned call mrHint nrHint kcHint info := by
  unfold dlpGetGemmQuantKernelInfoByDtype at returns
  split at returns
  · split at returns
    next found attempt =>
      cases returns
      split at attempt
      next vector => exact gemv_returned vector attempt
      next => cases attempt
    next attempt =>
      have refused : call.m = 1 ∨ call.n = 1 →
          gemvQuantKernelInfo call nrHint kcHint = none := by
        intro vector
        rwa [if_pos vector] at attempt
      have returned := gemm_returned backend call mrHint nrHint kcHint threads
        (settledDims_of_refused refused)
      rw [Option.some.inj returns] at returned
      exact returned
  · cases returns

/-- The engine tries a GEMV kernel over whole groups only. -/
theorem dvd_of_gate {call : QuantCall} {kcHint : Nat}
    (gate : gemvDispatchGateHolds call kcHint = true) :
    normalisedGroupSize call.groupSize call.k ∣ call.k := by
  unfold gemvDispatchGateHolds at gate
  split at gate
  · cases gate
  · split at gate
    · cases gate
    · simp only [Bool.and_eq_true, decide_eq_true_eq] at gate
      exact Nat.dvd_of_mod_eq_zero gate.1.2

/-- Only a GEMV kernel for one column has another width than the hint. -/
theorem settledDims_nr {call : QuantCall} {mrHint nrHint kcHint : Nat}
    (matrix : call.n ≠ 1 ∨ gemvDispatchGateHolds call kcHint = false) :
    (settledDims call mrHint nrHint kcHint).nr = nrHint := by
  unfold settledDims
  split_ifs with attempted
  · have wide : call.n ≠ 1 := by
      rcases matrix with wide | refused
      · exact wide
      · rw [attempted.2] at refused
        cases refused
    rcases @gemvDims_row call.n nrHint wide with
      ⟨-, tile⟩ | ⟨-, tile⟩
    · rw [tile, Option.getD_some]
    · rw [tile, Option.getD_none]
  · rfl

/-! ## GEMV keys -/

section Keys

variable {call : QuantCall} {mrHint nrHint kcHint : Nat}
    {info : QuantKernelInfo}

/-- The key of a call with one column. -/
theorem Returned.isGemvKey_column
    (returned : Returned call mrHint nrHint kcHint info)
    (column : call.n = 1) :
    info.IsGemvKey call.m call.n ↔
      gemvDispatchGateHolds call kcHint = true ∨ nrHint = 1 ∨
        (call.m = 1 ∧ mrHint = 1) := by
  unfold QuantKernelInfo.IsGemvKey
  rw [returned.dims, settledDims]
  by_cases gate : gemvDispatchGateHolds call kcHint = true
  · rw [if_pos ⟨Or.inr column, gate⟩, gemvDims, if_pos column,
      Option.getD_some]
    simp [gate, column]
  · rw [if_neg (fun both => gate both.2)]
    simp only [column, gate]
    tauto

/-- The key of a call with one row. -/
theorem Returned.isGemvKey_row
    (returned : Returned call mrHint nrHint kcHint info)
    (row : call.m = 1) (wide : call.n ≠ 1) :
    info.IsGemvKey call.m call.n ↔
      (gemvDispatchGateHolds call kcHint = true ∧ GemvWidth nrHint) ∨
        mrHint = 1 := by
  unfold QuantKernelInfo.IsGemvKey
  rw [returned.dims, settledDims]
  by_cases gate : gemvDispatchGateHolds call kcHint = true
  · rw [if_pos ⟨Or.inl row, gate⟩]
    rcases @gemvDims_row call.n nrHint wide with
      ⟨width, tile⟩ | ⟨width, tile⟩
    · rw [tile, Option.getD_some]
      simp [row, gate, width]
    · rw [tile, Option.getD_none]
      simp [row, wide, width]
  · rw [if_neg (fun both => gate both.2)]
    simp [row, wide, gate]

theorem QuantKernelInfo.not_isGemvKey (info : QuantKernelInfo) {m n : Nat}
    (rows : m ≠ 1) (columns : n ≠ 1) : ¬ info.IsGemvKey m n := by
  rintro (⟨row, -⟩ | ⟨column, -⟩)
  · exact rows row
  · exact columns column

end Keys

/-- The context and the kernel that a successful init leaves. -/
structure Initialised (call : QuantCall) (cntx settled : DlpGemmCntx)
    (info : QuantKernelInfo) : Prop where
  returned : Returned call cntx.blksz.MR cntx.blksz.NR cntx.blksz.KC info
  mr_pos : 0 < info.dims.mr
  nr_pos : 0 < info.dims.nr
  blksz : settled.blksz =
    { cntx.blksz with
      KC := info.kc
      MC := roundUp cntx.blksz.MC info.dims.mr
      NC := roundUp cntx.blksz.NC info.dims.nr }

theorem initialised_of_some {engine : QuantEngine} {backend : QuantBackend}
    {call : QuantCall} {cntx settled : DlpGemmCntx} {info : QuantKernelInfo}
    (inits : dlpInitAndGetGemmQuantKernelHndl engine backend call cntx =
      (settled, some info)) :
    Initialised call cntx settled info := by
  unfold dlpInitAndGetGemmQuantKernelHndl at inits
  split at inits
  · cases inits
  next found threads returns =>
    split at inits
    · cases inits
    next tile =>
      rw [Prod.mk.injEq] at inits
      rcases inits with ⟨rfl, held⟩
      split at held
      · cases held
        exact ⟨returned_of_some returns, by omega, by omega, rfl⟩
      · cases held

end AoclDlp.Quant.KernelInit
