import AoclDlp.Api.GemmCheck
import AoclDlp.DecisionEngine.KernelInit
import AoclDlp.DecisionEngine.Scaling

/-!
# The F32 GEMM entry point

`aocl_gemm_f32f32f32of32` rewrites its operands before it asks for a kernel:
column-major problems are swapped, doubly transposed ones are computed through
their transpose, and a vector operand is moved to the side whose kernel needs
no packing.  The kernel init, the pack-B init and the validator then settle the
local context, and a small single-threaded problem runs without the five-loop.

The scalars are a parameter, as in `AoclDlp.DecisionEngine.Scaling`.
-/

namespace AoclDlp.Api.F32Gemm

open AoclDlp.Api.GemmCheck
open AoclDlp.Config.BlockSize
open AoclDlp.Config.LocalContext
open AoclDlp.DecisionEngine.KernelInit
open AoclDlp.DecisionEngine.Scaling
open AoclDlp.Foundations.Rounding

/-! ## The operands -/

/-- The matrix of the caller that a pointer denotes. -/
inductive Operand where
  | a
  | b
  deriving DecidableEq, Repr

/-- The tuple that the entry point passes on. -/
structure Operands where
  m : Nat
  n : Nat
  aUse : Operand
  bUse : Operand
  rsA : Nat
  csA : Nat
  rsB : Nat
  csB : Nat
  rsC : Nat
  csC : Nat
  mtagA : MemoryTag
  mtagB : MemoryTag
  order : Char
  deriving DecidableEq, Repr

/-- The operands as the caller stored them. -/
def storedOperands (args : GemmArgs) : Operands where
  m := args.m.toNat
  n := args.n.toNat
  aUse := .a
  bUse := .b
  rsA := if isTrans args.transa then 1 else args.lda.toNat
  csA := if isTrans args.transa then args.lda.toNat else 1
  rsB := if isTrans args.transb then 1 else args.ldb.toNat
  csB := if isTrans args.transb then args.ldb.toNat else 1
  rsC := args.ldc.toNat
  csC := 1
  mtagA := dlpParamMapCharToLpmtag args.memFormatA
  mtagB := dlpParamMapCharToLpmtag args.memFormatB
  order := args.order

namespace Operands

/-- A and B in each other's place. -/
def swap (ops : Operands) : Operands :=
  { ops with
    m := ops.n
    n := ops.m
    aUse := ops.bUse
    bUse := ops.aUse
    rsA := ops.rsB
    csA := ops.csB
    rsB := ops.rsA
    csB := ops.csA
    mtagA := ops.mtagB
    mtagB := ops.mtagA }

/-- The row and column strides of all three matrices in each other's place. -/
def exchangeStrides (ops : Operands) : Operands :=
  { ops with
    rsA := ops.csA
    csA := ops.rsA
    rsB := ops.csB
    csB := ops.rsB
    rsC := ops.csC
    csC := ops.rsC }

/-- The transposed problem. -/
def transpose (ops : Operands) : Operands :=
  ops.swap.exchangeStrides

end Operands

/-- A transposed operand is packed. -/
def packIf (trans : Bool) (mtag : MemoryTag) : MemoryTag :=
  if trans then .pack else mtag

/-- The column-major tags: a transposed A is packed only where it was not. -/
def columnMajorTags (args : GemmArgs) (ops : Operands) : Operands :=
  { ops with
    mtagA := packIf (isTrans args.transa && decide (ops.mtagA = .unpacked))
      ops.mtagA
    mtagB := packIf (isTrans args.transb) ops.mtagB }

/-- The operands of a problem with at least two rows and columns. -/
def gemmOperands (inducesTranspose : Bool) (args : GemmArgs) : Operands :=
  let ops := storedOperands args
  let transa := isTrans args.transa
  let transb := isTrans args.transb
  if isRowMajor args.order then
    if ops.mtagB ≠ .reordered then
      if inducesTranspose && transb && transa then
        { ops.transpose with order := 'c' }
      else
        { ops with
          mtagB := packIf transb ops.mtagB
          mtagA := packIf transa ops.mtagA }
    else { ops with mtagA := packIf transa ops.mtagA }
  else if inducesTranspose && transa && transb then
    { ops.exchangeStrides with order := 'r' }
  else (columnMajorTags args ops).swap

/-- The operands of a problem with one row or one column. -/
def gemvOperands (postOpsDisabled : Bool) (args : GemmArgs) : Operands :=
  let ops := storedOperands args
  let rowMajor := isRowMajor args.order
  let tmp :=
    if rowMajor then
      { ops with
        mtagB := packIf
          (decide (ops.mtagB ≠ .reordered) && isTrans args.transb) ops.mtagB
        mtagA := packIf (isTrans args.transa) ops.mtagA }
    else (columnMajorTags args ops).swap
  let transa := isTrans (if rowMajor then args.transa else args.transb)
  let transb := isTrans (if rowMajor then args.transb else args.transa)
  if postOpsDisabled then
    if tmp.m = 1 ∧ transb = true ∧ tmp.mtagB ≠ .reordered then
      { tmp.transpose with mtagA := .unpacked }
    else if tmp.n = 1 ∧ transa = true ∧ tmp.rsC = 1 then
      { tmp.transpose with mtagB := .unpacked }
    else tmp
  else tmp

/-! ## The native F32 folds -/

/-- The key of an F32 kernel: the fields that the frames read. -/
structure F32KernelInfo where
  info : KernelInfo
  betaScalingType : ScalingType
  invokeRD : Bool
  deriving DecidableEq, Repr

/-- The instruction preference of a native call. -/
def nativeInstPref (backend : F32Backend) : Option KernelInstrPreference :=
  match backend.eKernelInstPref with
  | .none =>
      if backend.isAvx512 then some .avx512ZmmFavour
      else if backend.isAvx2 then some .avx2YmmFavour
      else none
  | preference => some preference

/-- Where the RD kernels, which need no packed B, are chosen. -/
def invokesRD (call : GemmCall) : Bool :=
  (decide (call.m * 8 ≤ call.k) ||
      (decide (call.n ≤ 8) && decide (32 ≤ call.k)) ||
      (decide (call.n % 16 ≠ 0) && decide (call.n % 16 ≤ 8) &&
        decide (call.n ≤ 72) && decide (64 ≤ call.k) &&
        (decide (call.n ≤ 48) || decide (call.m ≤ 32))) ||
      (decide (call.m ≤ 6) && decide (call.n ≤ 72))) &&
    decide (call.csB ≠ 1) && decide (call.mtagB = .pack) &&
    decide (call.mtagA = .unpacked)

section Entry

variable {Scalar : Type} [BEq Scalar] [OfNat Scalar 0] [OfNat Scalar 1]

/-- `gemmF32DEBackend::getGemmKernelInfoForInputFastPath`. -/
def nativeGemmKernelInfo (backend : F32Backend) (processor : Processor)
    (call : GemmCall) (beta : Scalar) (hints : Hints) :
    Option F32KernelInfo :=
  if backend.canGenerateKernelInfo then
    if hints.mrHint ≤ 1 ∨ hints.nrHint ≤ 1 then none
    else
      (nativeInstPref backend).map fun preference =>
        let kc := if call.k = 1 then 1 else hints.kcHint
        let invokeRD := invokesRD call
        let skinnyN := !invokeRD && decide (call.n ≤ 16) &&
          decide (0 < call.m) && decide (kc ≠ 1) &&
          decide (preference = .avx512ZmmFavour)
        ⟨⟨⟨skinnyMr processor call hints.blkszSetMask 4 skinnyN
            hints.mrHint, hints.nrHint⟩, kc⟩,
          betaScalingType beta call.k hints.kcHint, invokeRD⟩
  else none

/-- `gemmF32DEBackend::getGemvKernelInfoForInputFastPath`. -/
def nativeGemvKernelInfo (backend : F32Backend) (call : GemmCall)
    (beta : Scalar) (hints : Hints) : Option F32KernelInfo :=
  let scaling := betaScalingType beta call.k hints.kcHint
  if backend.canGenerateKernelInfo then
    (nativeInstPref backend).bind fun preference =>
      if call.n = 1 then
        if backend.isAvx2 then
          some ⟨⟨⟨if preference = .avx2YmmFavour then 8 else 16, 1⟩,
            hints.kcHint⟩, scaling, false⟩
        else if backend.isAvx512 then
          some ⟨⟨⟨16, 1⟩, hints.kcHint⟩, scaling, false⟩
        else none
      else if call.m = 1 then
        if backend.isAvx2 then
          some ⟨⟨⟨1, if preference = .avx2YmmFavour then 16 else 64⟩, 512⟩,
            scaling, false⟩
        else if backend.isAvx512 then
          some ⟨⟨⟨1, 64⟩, hints.kcHint⟩, scaling, false⟩
        else none
      else none
  else none

/-- The kernel key of an F32 call. -/
def nativeKernelInfo (backend : F32Backend) (processor : Processor)
    (call : GemmCall) (beta : Scalar) (hints : Hints) :
    Option F32KernelInfo :=
  if call.m = 1 ∨ call.n = 1 then
    nativeGemvKernelInfo backend call beta hints
  else nativeGemmKernelInfo backend processor call beta hints

/-! ## The entry point -/

/-- What the entry point finds around it; the post-op translation yields
whether its list is empty. -/
structure F32Surroundings where
  processor : Processor
  avx2fma3 : Bool
  supThres : DlpGemmSupThreshold
  backend : F32Backend
  jitKernel : GemmCall → F32KernelInfo → Bool
  jitPackBKernel : Nat → Bool → Bool
  rntm : DlpGemmThreadInfo
  postOps : Except DlpClscErr Bool

/-- The arguments of an F32 GEMM. -/
structure F32Args (Scalar : Type) where
  gemm : GemmArgs
  alpha : Scalar
  beta : Scalar

/-- What the entry point runs. -/
structure F32Run (Scalar : Type) where
  ops : Operands
  k : Nat
  lcntx : DlpGemmCntx
  kernel : F32KernelInfo
  beta : Scalar
  tiny : Bool

/-- `dlp_init_and_get_kernel_hndl` for F32: the context it leaves, with the
kernel that the handle holds. -/
def initF32Kernel (around : F32Surroundings) (call : GemmCall)
    (beta : Scalar) (cntx : DlpGemmCntx) :
    DlpGemmCntx × Option F32KernelInfo :=
  match nativeKernelInfo around.backend around.processor call beta
      (hintsOf cntx) with
  | none => (cntx, none)
  | some kernel =>
      let dims := kernel.info.dims
      if dims.mr = 0 ∨ dims.nr = 0 then (cntx, none)
      else
        ({ cntx with
            blksz :=
              { MC := roundUp cntx.blksz.MC dims.mr
                NC := roundUp cntx.blksz.NC dims.nr
                KC := kernel.info.kc
                MR := dims.mr
                NR := dims.nr }
            blkszSetMask :=
              { cntx.blkszSetMask with MR := true, NR := true } },
          if around.jitKernel call kernel then some kernel else none)

/-- `dlp_init_and_get_packb_kernel_hndl` for F32. -/
def initF32PackB (around : F32Surroundings) (csSrc : Nat)
    (cntx : DlpGemmCntx) : DlpGemmCntx :=
  if around.backend.canGenerateKernelInfo &&
      (around.backend.isAvx512 || around.backend.isAvx2) then
    { cntx with
      hasPackBKernel :=
        around.jitPackBKernel cntx.blksz.NR (decide (csSrc ≠ 1))
      blksz :=
        { cntx.blksz with NC := roundUp cntx.blksz.NC cntx.blksz.NR }
      blkszSetMask := { cntx.blkszSetMask with NR := true } }
  else { cntx with hasPackBKernel := false }

/-- `is_tiny_input_f32`. -/
def isTinyInputF32 (m n k : Nat) (blksz : DlpGemmBlockSize) : Bool :=
  decide (k = 1) ||
    (decide (k < blksz.KC) && decide (m ≤ blksz.MC) &&
      decide (n < blksz.NC) &&
      ((decide (m ≤ 5 * blksz.MR) && decide (n ≤ 2 * blksz.NR) &&
          decide (k ≤ 480)) ||
        (decide (m * n * k < 12 * 64 * 496) && decide (m ≠ 1) &&
          decide (m * k < 12000))))

/-- `dlp_is_single_thread`. -/
def dlpIsSingleThread (rntm : DlpGemmThreadInfo) : Bool :=
  decide (rntm.numThreads = 1) ||
    (decide (0 < rntm.icWays) && decide (0 < rntm.jcWays) &&
      decide (rntm.icWays * rntm.jcWays = 1))

/-- The call that the decision engine sees. -/
def engineCall (around : F32Surroundings) (ops : Operands) (k : Nat) :
    GemmCall :=
  ⟨ops.m, ops.n, k, ops.rsA, ops.csB, ops.mtagA, ops.mtagB, around.rntm,
    false⟩

/-- The inits and the validator that end the entry point. -/
def settleF32 (around : F32Surroundings) (beta : Scalar)
    (metadata : Option DlpMetadata) (ops : Operands) (k : Nat)
    (lcntx : DlpGemmCntx) : Except DlpClscErr (F32Run Scalar) :=
  match initF32Kernel around (engineCall around ops k) beta lcntx with
  | (_, none) => .error .invalidJitKernel
  | (lcntx, some kernel) => do
      let lcntx := initF32PackB around ops.csB lcntx
      runRules
        [⟨decide (1 < lcntx.blksz.NR) && !lcntx.hasPackBKernel,
          .invalidJitKernel⟩]
      dlpGemmValidateMetadataWithLcntx lcntx metadata
      .ok ⟨ops, k, lcntx, kernel, beta, dlpIsSingleThread around.rntm &&
        isTinyInputF32 ops.m ops.n k lcntx.blksz⟩

/-- `aocl_gemm_f32f32f32of32`; `hasPostOps` is a nonzero `seq_length`. -/
def aoclGemmF32f32f32of32 (around : F32Surroundings)
    (args : F32Args Scalar) (metadata : Option DlpMetadata)
    (hasPostOps : Bool) : Except DlpClscErr (F32Run Scalar) := do
  runRules [⟨!around.avx2fma3, .notSupported⟩]
  aoclDlpGemmCheck args.gemm
  let stored := storedOperands args.gemm
  runRules
    [⟨decide (stored.mtagA = .reordered) ||
        (isColumnMajor args.gemm.order &&
          decide (stored.mtagB = .reordered)), .notSupported⟩]
  let lcntx ← dlpGemmUpdCntxWithMetadata
    (dlpGemmGetGlobalCntxObj around.processor around.supThres
      .f32f32f32of32) metadata
  let postOpsDisabled ← around.postOps
  let avx512OnNonZen3 := around.processor.avx512 &&
    decide (around.processor.dlpGemmGetEnabledArch ≠ .zen3)
  let ops :=
    if stored.m = 1 ∨ stored.n = 1 then
      gemvOperands postOpsDisabled args.gemm
    else gemmOperands (avx512OnNonZen3 || !hasPostOps) args.gemm
  settleF32 around args.beta metadata ops args.gemm.k.toNat lcntx

/-- The betas with which the frame of a run calls its kernel on one block of
columns: the tiny path has no `pc` loop. -/
def F32Run.betas (run : F32Run Scalar) : List Scalar :=
  if run.tiny then [run.beta]
  else pcBetas run.beta run.k run.lcntx.blksz.KC

/-! ## What an accepted call runs -/

omit [OfNat Scalar 1]

/-- A GEMM kernel keeps the K block of its context, except for a K of one. -/
theorem nativeKernelInfo_gemm {backend : F32Backend} {processor : Processor}
    {call : GemmCall} {beta : Scalar} {hints : Hints}
    {kernel : F32KernelInfo} (rows : call.m ≠ 1) (columns : call.n ≠ 1)
    (returns : nativeKernelInfo backend processor call beta hints =
      some kernel) :
    kernel.info.kc = (if call.k = 1 then 1 else hints.kcHint) ∧
      kernel.betaScalingType =
        betaScalingType beta call.k hints.kcHint := by
  unfold nativeKernelInfo at returns
  rw [if_neg (not_or.mpr ⟨rows, columns⟩)] at returns
  unfold nativeGemmKernelInfo at returns
  split at returns
  · split at returns
    · cases returns
    · rcases Option.map_eq_some_iff.mp returns with ⟨_, -, rfl⟩
      exact ⟨rfl, rfl⟩
  · cases returns

/-- The rewrites keep the two extents or exchange them. -/
theorem gemmOperands_extents (induces : Bool) (args : GemmArgs) :
    let ops := gemmOperands induces args
    let stored := storedOperands args
    (ops.m = stored.m ∧ ops.n = stored.n) ∨
      (ops.m = stored.n ∧ ops.n = stored.m) := by
  unfold gemmOperands
  dsimp only
  split_ifs
  · exact Or.inr ⟨rfl, rfl⟩
  · exact Or.inl ⟨rfl, rfl⟩
  · exact Or.inl ⟨rfl, rfl⟩
  · exact Or.inl ⟨rfl, rfl⟩
  · exact Or.inr ⟨rfl, rfl⟩

theorem gemmOperands_dims (induces : Bool) {args : GemmArgs}
    (rows : (storedOperands args).m ≠ 1)
    (columns : (storedOperands args).n ≠ 1) :
    (gemmOperands induces args).m ≠ 1 ∧
      (gemmOperands induces args).n ≠ 1 := by
  rcases gemmOperands_extents induces args with ⟨m, n⟩ | ⟨m, n⟩
  · rw [m, n]
    exact ⟨rows, columns⟩
  · rw [m, n]
    exact ⟨columns, rows⟩

end Entry

section Settled

variable {Scalar : Type} [BEq Scalar] [OfNat Scalar 0]
  {around : F32Surroundings} {beta : Scalar}
  {metadata : Option DlpMetadata} {ops : Operands} {k : Nat}
  {lcntx : DlpGemmCntx} {run : F32Run Scalar}

/-- The context and the kernel that a run settles on. -/
structure Settles (around : F32Surroundings) (beta : Scalar)
    (ops : Operands) (k : Nat) (lcntx : DlpGemmCntx)
    (run : F32Run Scalar) : Prop where
  operands : run.ops = ops
  depth : run.k = k
  returns : nativeKernelInfo around.backend around.processor
    (engineCall around ops k) beta (hintsOf lcntx) = some run.kernel
  mr_ne : run.kernel.info.dims.mr ≠ 0
  nr_ne : run.kernel.info.dims.nr ≠ 0
  blksz : run.lcntx.blksz =
    { MC := roundUp lcntx.blksz.MC run.kernel.info.dims.mr
      NC := roundUp lcntx.blksz.NC run.kernel.info.dims.nr
      KC := run.kernel.info.kc
      MR := run.kernel.info.dims.mr
      NR := run.kernel.info.dims.nr }
  beta_eq : run.beta = beta

/-- The pack-B init finds an `NC` of whole panels. -/
theorem initF32PackB_blksz (around : F32Surroundings) (csSrc : Nat)
    {cntx : DlpGemmCntx} (positive : 0 < cntx.blksz.NR)
    (panels : cntx.blksz.NR ∣ cntx.blksz.NC) :
    (initF32PackB around csSrc cntx).blksz = cntx.blksz := by
  unfold initF32PackB
  split
  · change ({ cntx.blksz with
      NC := roundUp cntx.blksz.NC cntx.blksz.NR } : DlpGemmBlockSize) = _
    rw [roundUp_of_dvd positive panels]
  · rfl

theorem settleF32_settles
    (settles : settleF32 around beta metadata ops k lcntx = .ok run) :
    Settles around beta ops k lcntx run := by
  unfold settleF32 at settles
  split at settles
  · cases settles
  next found kernel inits =>
    rcases bind_ok settles with ⟨_, -, settles⟩
    rcases bind_ok settles with ⟨_, -, settles⟩
    cases settles
    unfold initF32Kernel at inits
    split at inits
    · cases inits
    next key returns =>
      dsimp only at inits
      split at inits
      · cases inits
      next tile =>
        rw [Prod.mk.injEq] at inits
        rcases inits with ⟨rfl, held⟩
        split at held
        · cases held
          rcases not_or.mp tile with ⟨mr, nr⟩
          refine ⟨rfl, rfl, returns, mr, nr, ?_, rfl⟩
          exact initF32PackB_blksz around _ (Nat.pos_of_ne_zero nr)
            (dvd_roundUp _ _)
        · cases held

/-- The K block and the scaling of a run with several rows and columns. -/
theorem settleF32_ok (rows : ops.m ≠ 1) (columns : ops.n ≠ 1)
    (settles : settleF32 around beta metadata ops k lcntx = .ok run) :
    run.k = k ∧ run.beta = beta ∧
      run.lcntx.blksz.KC = (if k = 1 then 1 else lcntx.blksz.KC) ∧
      run.kernel.betaScalingType =
        betaScalingType beta k lcntx.blksz.KC := by
  have settled := settleF32_settles settles
  rcases nativeKernelInfo_gemm
    (show (engineCall around ops k).m ≠ 1 from rows) columns settled.returns
    with ⟨block, scaling⟩
  refine ⟨settled.depth, settled.beta_eq, ?_, scaling⟩
  rw [settled.blksz]
  exact block

end Settled

end AoclDlp.Api.F32Gemm
