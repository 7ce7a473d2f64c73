import AoclDlp.Config.LocalContext
import AoclDlp.DecisionEngine.ThreadPartition

/-!
# The analytical block-shape model

The decision engine chooses a microkernel tile by costing every tile of a
backend's candidate set together with the split it would run under.  Reorder
and GEMM reach the same search: a packed panel does not record its width, so
the width is recovered by running the search again over the same input.

This module embeds `de_shape_model.hh`, the questions asked of an input in
`de_backend_utils.hh`, the search of `de_optimizer.hh` and the parts of the
BF16, U8S8 and S8 backends that the search calls.  Costs and splits are only
taken for inputs with more than one row, where the signed row count of the
source is a natural number.
-/

namespace AoclDlp.DecisionEngine.ShapeModel

open AoclDlp.Config.BlockSize
open AoclDlp.Config.LocalContext
open AoclDlp.DecisionEngine.ThreadPartition

/-- `gemmShapeModelInput`. -/
structure GemmShapeModelInput where
  m : Int
  n : Nat
  k : Nat
  mr : Nat
  nr : Nat
  frozen : BlkszSetMask
  numThreads : Int
  icWays : Int
  jcWays : Int
  bReordered : Bool
  deriving DecidableEq, Repr

/-- `makeModelInput`. -/
def makeModelInput (m : Int) (n k mr nr : Nat) (frozen : BlkszSetMask)
    (mHint ntHint numThreads icWays jcWays : Int) (bReordered : Bool) :
    GemmShapeModelInput :=
  if bReordered then ⟨mHint, n, k, mr, nr, frozen, ntHint, 0, 0, true⟩
  else ⟨m, n, k, mr, nr, frozen, numThreads, icWays, jcWays, false⟩

/-- `gemmShapeModelResult`. -/
structure GemmShapeModelResult where
  mr : Nat
  nr : Nat
  numThreads : Int
  icWays : Int
  jcWays : Int
  deriving DecidableEq, Repr

/-- `kernelDims`. -/
structure KernelDims where
  mr : Nat
  nr : Nat
  deriving DecidableEq, Repr

namespace GemmShapeModelInput

/-- `isTilePinnedByCaller`. -/
def isTilePinnedByCaller (input : GemmShapeModelInput) : Bool :=
  input.frozen.MR && input.frozen.NR

/-- `isEligible`. -/
def isEligible (input : GemmShapeModelInput) : Bool :=
  !input.isTilePinnedByCaller && decide (1 < input.m) &&
    decide (1 < input.n) &&
    (decide (0 < input.numThreads) ||
      (decide (0 < input.icWays) && decide (0 < input.jcWays)))

/-- `isMRFixedByCaller`. -/
def isMRFixedByCaller (input : GemmShapeModelInput) : Bool :=
  input.frozen.MR

/-- `isNRFixedByCaller`. -/
def isNRFixedByCaller (input : GemmShapeModelInput) : Bool :=
  input.frozen.NR

/-- `isCandidateAdmissible`. -/
def isCandidateAdmissible (input : GemmShapeModelInput)
    (candidate : KernelDims) : Bool :=
  if input.isMRFixedByCaller && candidate.mr != input.mr then false
  else if input.isNRFixedByCaller && candidate.nr != input.nr then false
  else true

/-- `baselineKernelDims`. -/
def baselineKernelDims (input : GemmShapeModelInput) : KernelDims :=
  ⟨input.mr, input.nr⟩

/-- `gemmOptimizer::deferSplit`. -/
def deferSplit (input : GemmShapeModelInput) (dims : KernelDims) :
    GemmShapeModelResult :=
  ⟨dims.mr, dims.nr, input.numThreads, input.icWays, input.jcWays⟩

/-- `gemmOptimizer::baselineShape`. -/
def baselineShape (input : GemmShapeModelInput) : GemmShapeModelResult :=
  input.deferSplit input.baselineKernelDims

/-- `gemmOptimizer::costEval`. -/
def costEval (input : GemmShapeModelInput) (shape : GemmShapeModelResult) :
    Nat :=
  let mrBlks := (input.m.toNat + shape.mr - 1) / shape.mr
  let nrBlks := (input.n + shape.nr - 1) / shape.nr
  let icWays := shape.icWays.toNat
  let jcWays := shape.jcWays.toNat
  let rows := (mrBlks + icWays - 1) / icWays * shape.mr
  let cols := (nrBlks + jcWays - 1) / jcWays * shape.nr
  rows * cols

/-- `gemmOptimizer::resolveShape` over a datatype's `adjustWays`. -/
def resolveShape (adjustWays : AdjustWays) (input : GemmShapeModelInput)
    (dims : KernelDims) : GemmShapeModelResult :=
  let out := input.deferSplit dims
  let ways := resolveWays adjustWays dims.mr dims.nr input.m.toNat input.n
    out.numThreads out.icWays out.jcWays
  { out with
    numThreads := ways.nThreads
    icWays := ways.icWays
    jcWays := ways.jcWays }

/-- One iteration of the loop of `sweepCandidates`: the incumbent and its
cost, once a candidate was costed. -/
def considerCandidate (adjustWays : AdjustWays)
    (input : GemmShapeModelInput)
    (best : Option (GemmShapeModelResult × Nat)) (candidate : KernelDims) :
    Option (GemmShapeModelResult × Nat) :=
  if input.isCandidateAdmissible candidate then
    let shape := input.resolveShape adjustWays candidate
    let cost := input.costEval shape
    match best with
    | none => some (shape, cost)
    | some (incumbent, bestCost) =>
        if cost < bestCost then some (shape, cost)
        else some (incumbent, bestCost)
  else best

/-- `gemmOptimizer::sweepCandidates`. -/
def sweepCandidates (adjustWays : AdjustWays) (input : GemmShapeModelInput)
    (candidates : List KernelDims) : GemmShapeModelResult :=
  match candidates.foldl (input.considerCandidate adjustWays) none with
  | none => input.resolveShape adjustWays input.baselineKernelDims
  | some (best, _) => best

theorem admissible_of_free {input : GemmShapeModelInput}
    (rows : input.frozen.MR = false) (columns : input.frozen.NR = false)
    (dims : KernelDims) : input.isCandidateAdmissible dims = true := by
  simp [isCandidateAdmissible, isMRFixedByCaller, isNRFixedByCaller, rows,
    columns]

/-- The outcome of the sweep over two admissible tiles. -/
theorem sweepCandidates_pair (adjustWays : AdjustWays)
    {input : GemmShapeModelInput} {first second : KernelDims}
    (admitsFirst : input.isCandidateAdmissible first = true)
    (admitsSecond : input.isCandidateAdmissible second = true) :
    (input.sweepCandidates adjustWays [first, second]).nr =
      if input.costEval (input.resolveShape adjustWays second) <
          input.costEval (input.resolveShape adjustWays first) then
        second.nr
      else first.nr := by
  unfold sweepCandidates
  simp only [List.foldl_cons, List.foldl_nil, considerCandidate,
    admitsFirst, admitsSecond, if_true]
  split_ifs <;> rfl

end GemmShapeModelInput

/-! ## The backends -/

/-- The GEMM backends with a shape model. -/
inductive GemmBackend where
  | bf16
  | u8s8
  | s8
  deriving DecidableEq, Repr

/-- The cached topology of `gemmBF16DEBackend`. -/
structure Topology where
  coresPerCCD : Int
  l3BytesPerCCD : Int
  deriving DecidableEq, Repr

/-- What the backends' constructors read from the machine. -/
structure Machine where
  processor : Processor
  topology : Topology
  deriving DecidableEq, Repr

/-- `gemmInt8DEBackendBase::adjustWays`. -/
def int8AdjustWays : AdjustWays := fun mr nr m n ways =>
  let mrBlks := (m + mr - 1) / mr
  if mrBlks ≥ ways.icWays then adjustIcJcWays mr nr m n ways else ways

namespace GemmBackend

/-- `isAnalyticalShapeModelArch`, as the constructors set it. -/
def isAnalyticalShapeModelArch (processor : Processor) :
    GemmBackend → Bool
  | .bf16 => processor.isAvx512Bf16Configured &&
      (processor.isZen5Configured || processor.isZen6Configured)
  | .u8s8 | .s8 =>
      processor.isAvx512VnniConfigured && processor.isZen5Configured

/-- `adjustWays`. -/
def adjustWays : GemmBackend → AdjustWays
  | .bf16 => bf16AdjustWays
  | .u8s8 | .s8 => int8AdjustWays

/-- `candidateTiles`. -/
def candidateTiles : GemmBackend → List KernelDims
  | .bf16 => [⟨6, 64⟩, ⟨8, 48⟩]
  | .u8s8 => [⟨6, 64⟩, ⟨8, 48⟩]
  | .s8 => [⟨6, 64⟩, ⟨8, 48⟩]

/-- `canUseAnalyticalShapeModel`. -/
def canUseAnalyticalShapeModel (processor : Processor)
    (input : GemmShapeModelInput) : GemmBackend → Bool
  | .bf16 =>
      isAnalyticalShapeModelArch processor .bf16 && input.bReordered &&
        input.isEligible
  | .u8s8 =>
      isAnalyticalShapeModelArch processor .u8s8 && input.bReordered &&
        input.isEligible && decide (1 < input.m) && decide (1 < input.n)
  | .s8 =>
      isAnalyticalShapeModelArch processor .s8 && input.bReordered &&
        input.isEligible && decide (1 < input.m) && decide (1 < input.n)

end GemmBackend

/-- `gemmBF16DEBackend::streamingTile`. -/
def streamingTile : KernelDims :=
  ⟨12, 32⟩

/-- `gemmBF16DEBackend::isBStreamBound`. -/
def isBStreamBound (topology : Topology) (input : GemmShapeModelInput) :
    Bool :=
  if topology.coresPerCCD ≤ 0 ∨ topology.l3BytesPerCCD ≤ 0 then false
  else if input.isCandidateAdmissible streamingTile = false then false
  else if input.m ≤ 6 ∨ 132 < input.m then false
  else if input.k % 32 ≠ 0 then false
  else if input.numThreads < 16 ∨
      input.numThreads % topology.coresPerCCD ≠ 0 then false
  else
    let dies := input.numThreads / topology.coresPerCCD
    let bBytes : Int := 2 * input.n * input.k
    decide (topology.l3BytesPerCCD < bBytes / dies)

namespace GemmBackend

/-- `proposeShape`. -/
def proposeShape (topology : Topology) (input : GemmShapeModelInput) :
    GemmBackend → GemmShapeModelResult
  | .bf16 =>
      if isBStreamBound topology input then
        input.resolveShape bf16AdjustWays streamingTile
      else input.sweepCandidates bf16AdjustWays (candidateTiles .bf16)
  | .u8s8 => input.sweepCandidates int8AdjustWays (candidateTiles .u8s8)
  | .s8 => input.sweepCandidates int8AdjustWays (candidateTiles .s8)

/-- `resolveGemmShape`. -/
def resolveGemmShape (machine : Machine) (backend : GemmBackend)
    (input : GemmShapeModelInput) : GemmShapeModelResult :=
  if backend.canUseAnalyticalShapeModel machine.processor input then
    backend.proposeShape machine.topology input
  else input.baselineShape

/-- `reorderedPanelNR`. -/
def reorderedPanelNR (machine : Machine) (backend : GemmBackend)
    (n k mrHint nrHint : Nat) (mask : BlkszSetMask) (hints : DlpGemmHints) :
    Nat :=
  let input := makeModelInput 0 n k mrHint nrHint mask hints.mHint
    hints.ntHint 0 0 0 true
  if backend.canUseAnalyticalShapeModel machine.processor input then
    (backend.proposeShape machine.topology input).nr
  else input.nr

/-! ## One search on both sides -/

variable (machine : Machine) (backend : GemmBackend)

/--
The kernel init of a GEMM over a reordered panel resolves the width at which
the panel was packed, whatever the rows and the threads of the call.
-/
theorem resolveGemmShape_nr (m : Int) (n k mr nr : Nat)
    (mask : BlkszSetMask) (hints : DlpGemmHints)
    (numThreads icWays jcWays : Int) :
    (backend.resolveGemmShape machine (makeModelInput m n k mr nr mask
        hints.mHint hints.ntHint numThreads icWays jcWays true)).nr =
      backend.reorderedPanelNR machine n k mr nr mask hints := by
  unfold resolveGemmShape reorderedPanelNR
  simp only [makeModelInput, if_true]
  split
  · rfl
  · rfl

/-- No backend consults the model for a settled tile. -/
theorem canUse_of_pinned {processor : Processor}
    {input : GemmShapeModelInput}
    (pinned : input.isTilePinnedByCaller = true) :
    backend.canUseAnalyticalShapeModel processor input = false := by
  have ineligible : input.isEligible = false := by
    simp [GemmShapeModelInput.isEligible, pinned]
  cases backend <;> simp [canUseAnalyticalShapeModel, ineligible]

/-- A settled tile keeps its width. -/
theorem reorderedPanelNR_of_settled {mask : BlkszSetMask}
    (rows : mask.MR = true) (columns : mask.NR = true)
    (n k mr nr : Nat) (hints : DlpGemmHints) :
    backend.reorderedPanelNR machine n k mr nr mask hints = nr := by
  have pinned : (makeModelInput 0 n k mr nr mask hints.mHint hints.ntHint 0
      0 0 true).isTilePinnedByCaller = true := by
    simp [makeModelInput, GemmShapeModelInput.isTilePinnedByCaller, rows,
      columns]
  have unused : backend.canUseAnalyticalShapeModel machine.processor
      (makeModelInput 0 n k mr nr mask hints.mHint hints.ntHint 0 0 0 true) =
        false := backend.canUse_of_pinned pinned
  unfold reorderedPanelNR
  rw [if_neg (by rw [unused]; exact Bool.false_ne_true)]
  rfl

end GemmBackend

end AoclDlp.DecisionEngine.ShapeModel
