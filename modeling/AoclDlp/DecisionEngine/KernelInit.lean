import AoclDlp.DecisionEngine.ShapeModel

/-!
# Kernel and pack-B initialisation

A GEMM entry point merges its metadata, asks the decision engine for a kernel
and then for a pack-B kernel; a native reorder asks for the pack-B kernel
alone.  Both inits write the tile they settled into the local context and snap
`MC` and `NC` onto it.

This module embeds the kernel-info folds of the BF16, U8S8 and S8 backends,
the F32 fold that BF16 reroutes to, the two inits and the entry sequences up
to the metadata validator.  Whether a kernel can be generated for a tile is a
parameter of the model.
-/

namespace AoclDlp.DecisionEngine.KernelInit

open AoclDlp.Config.BlockSize
open AoclDlp.Config.LocalContext
open AoclDlp.DecisionEngine.ShapeModel
open AoclDlp.Foundations.Rounding

/-- `kernelInstrPreference`. -/
inductive KernelInstrPreference where
  | none
  | avx2XmmFavour
  | avx2YmmFavour
  | avx512XmmFavour
  | avx512YmmFavour
  | avx512ZmmFavour
  | avx512ZmmBf16Favour
  deriving DecidableEq, Repr

/-- The state of the F32 backend that BF16 reroutes to. -/
structure F32Backend where
  isAvx512 : Bool
  isAvx2 : Bool
  eKernelInstPref : KernelInstrPreference
  canGenerateKernelInfo : Bool
  deriving DecidableEq, Repr

/-- The arguments of a GEMM call that reach the decision engine. -/
structure GemmCall where
  m : Nat
  n : Nat
  k : Nat
  rsA : Nat
  csB : Nat
  mtagA : MemoryTag
  mtagB : MemoryTag
  rntm : DlpGemmThreadInfo
  shapeChangingGlu : Bool
  deriving DecidableEq, Repr

/-- The tile and the `KC` of `kernelInfo`. -/
structure KernelInfo where
  dims : KernelDims
  kc : Nat
  deriving DecidableEq, Repr

/-- The decision engine, and which kernels its generators can emit. -/
structure Engine where
  machine : Machine
  f32Backend : F32Backend
  jitKernel : GemmCall → KernelInfo → Bool
  jitPackBKernel : Nat → Bool → Bool

/-- The context fields that a kernel-info fold reads. -/
structure Hints where
  mrHint : Nat
  nrHint : Nat
  kcHint : Nat
  blkszSetMask : BlkszSetMask
  gemmHints : DlpGemmHints
  threadInfo : DlpGemmThreadInfo
  deriving DecidableEq, Repr

/-! ## The register-block rules of a call -/

/-- `getL1DAssociativityForCurrentArch`, also `getAliasSafeMrCap`. -/
def getL1DAssociativity (processor : Processor) : Nat :=
  if processor.isZen6Configured || processor.isZen5Configured then 12 else 8

/-- `shouldUseMrSplit`. -/
def shouldUseMrSplit (processor : Processor) (rsA elemBytes mr : Nat) :
    Bool :=
  if mr ≤ getL1DAssociativity processor then false
  else
    let r := rsA * elemBytes % 4096
    decide (r < 16) || decide (4096 - 16 < r)

/-- The skinny-`n` bump of `MR` and its aliasing guard. -/
def skinnyMr (processor : Processor) (call : GemmCall)
    (mask : BlkszSetMask) (elemBytes : Nat) (skinnyN : Bool) (mr : Nat) :
    Nat :=
  if skinnyN && !mask.MR then
    let bumped := min call.m 16
    if call.mtagA = .unpacked ∧
        shouldUseMrSplit processor call.rsA elemBytes bumped = true then
      min bumped (getL1DAssociativity processor)
    else bumped
  else mr

/-- The rows of a skinny kernel for several rows. -/
theorem skinnyMr_bounds (processor : Processor) {call : GemmCall}
    {mask : BlkszSetMask} (elemBytes mr : Nat) (free : mask.MR = false)
    (several : 2 ≤ call.m) :
    2 ≤ skinnyMr processor call mask elemBytes true mr ∧
      skinnyMr processor call mask elemBytes true mr ≤ 16 := by
  unfold skinnyMr getL1DAssociativity
  rw [free]
  simp only [Bool.not_false, Bool.and_self, if_true]
  split_ifs <;> omega

/-! ## The rerouted F32 folds -/

namespace F32Backend

/-- The instruction preference of a rerouted call. -/
def kInstPref (backend : F32Backend) : Option KernelInstrPreference :=
  match backend.eKernelInstPref with
  | .avx512YmmFavour => some .avx512ZmmFavour
  | .none =>
      if backend.isAvx512 then some .avx512ZmmFavour
      else if backend.isAvx2 then some .avx2YmmFavour
      else none
  | preference => some preference

/-- `gemmF32DEBackend::getGemvKernelInfoForInputFastPath`, rerouted. -/
def gemvKernelInfo (backend : F32Backend) (call : GemmCall)
    (hints : Hints) : Option KernelInfo :=
  if backend.canGenerateKernelInfo then
    backend.kInstPref.bind fun preference =>
      if call.n = 1 then
        if backend.isAvx2 then
          some ⟨⟨if preference = .avx2YmmFavour then 8 else 16, 1⟩,
            hints.kcHint⟩
        else if backend.isAvx512 then some ⟨⟨16, 1⟩, hints.kcHint⟩
        else none
      else if call.m = 1 then
        if backend.isAvx2 then
          some ⟨⟨1, if preference = .avx2YmmFavour then 16 else 64⟩, 512⟩
        else if backend.isAvx512 then some ⟨⟨1, 64⟩, hints.kcHint⟩
        else none
      else none
  else none

/-- `gemmF32DEBackend::getGemmKernelInfoForInputFastPath`, rerouted. -/
def gemmKernelInfo (backend : F32Backend) (processor : Processor)
    (call : GemmCall) (hints : Hints) : Option KernelInfo :=
  if backend.canGenerateKernelInfo then
    if hints.mrHint ≤ 1 ∨ hints.nrHint ≤ 1 then none
    else
      backend.kInstPref.map fun preference =>
        let skinnyN := decide (call.n ≤ 16) && decide (0 < call.m) &&
          decide (hints.kcHint ≠ 1) && decide (preference = .avx512ZmmFavour)
        ⟨⟨skinnyMr processor call hints.blkszSetMask 4 skinnyN hints.mrHint,
          hints.nrHint⟩, hints.kcHint⟩
  else none

end F32Backend

/-! ## The native folds -/

/-- `canGenerateKernelInfo`, as the constructors set it. -/
def canGenerateKernelInfo (processor : Processor) : GemmBackend → Bool
  | .bf16 => true
  | .u8s8 | .s8 => processor.avx512vnni

/-- `k_pack_factor`. -/
def kPackFactor : GemmBackend → Nat
  | .bf16 => 2
  | .u8s8 | .s8 => 4

/-- `getGemvKernelInfoForInputFastPath` of a native backend. -/
def gemvKernelInfo (machine : Machine) (backend : GemmBackend)
    (call : GemmCall) (hints : Hints) : KernelInfo :=
  if call.n = 1 then
    ⟨⟨16, 1⟩, roundUp hints.kcHint (kPackFactor backend)⟩
  else
    let nr :=
      if call.mtagB = .reordered then
        backend.reorderedPanelNR machine call.n call.k hints.mrHint
          hints.nrHint hints.blkszSetMask hints.gemmHints
      else 64
    let kc := match backend with
      | .bf16 => 4096
      | .u8s8 | .s8 => hints.kcHint
    ⟨⟨1, nr⟩, roundUp kc (kPackFactor backend)⟩

/-- The model input of a GEMM call. -/
def gemmModelInput (call : GemmCall) (hints : Hints) :
    GemmShapeModelInput :=
  makeModelInput call.m call.n call.k hints.mrHint hints.nrHint
    hints.blkszSetMask hints.gemmHints.mHint hints.gemmHints.ntHint
    hints.threadInfo.numThreads hints.threadInfo.icWays
    hints.threadInfo.jcWays (call.mtagB = .reordered)

/-- `getGemmKernelInfoForInputFastPath` of a native backend, with the thread
record it leaves. -/
def gemmKernelInfo (machine : Machine) (backend : GemmBackend)
    (call : GemmCall) (hints : Hints) :
    Option (KernelInfo × DlpGemmThreadInfo) :=
  if hints.mrHint ≤ 1 ∨ hints.nrHint ≤ 1 then none
  else
    let input := gemmModelInput call hints
    let shape := backend.resolveGemmShape machine input
    let mr := match backend with
      | .bf16 =>
          let skinnyN := decide (call.n ≤ 16) && decide (0 < call.m)
          skinnyMr machine.processor call hints.blkszSetMask 2 skinnyN
            shape.mr
      | .u8s8 | .s8 => shape.mr
    let publishSplit :=
      backend.canUseAnalyticalShapeModel machine.processor input &&
        decide (hints.threadInfo.icWays ≤ 0) &&
        decide (hints.threadInfo.jcWays ≤ 0)
    let threadInfo :=
      if publishSplit then
        ⟨shape.numThreads, shape.icWays, shape.jcWays⟩
      else hints.threadInfo
    some (⟨⟨mr, shape.nr⟩, roundUp hints.kcHint (kPackFactor backend)⟩,
      threadInfo)

/-- `dlp_get_gemm_kernelInfo_by_dtype`. -/
def dlpGetGemmKernelInfoByDtype (engine : Engine) (backend : GemmBackend)
    (call : GemmCall) (hints : Hints) :
    Option (KernelInfo × DlpGemmThreadInfo) :=
  let processor := engine.machine.processor
  if canGenerateKernelInfo processor backend then
    if backend = .bf16 ∧ processor.isAvx512Bf16Configured = false then
      (if call.m = 1 ∨ call.n = 1 then
        engine.f32Backend.gemvKernelInfo call hints
      else engine.f32Backend.gemmKernelInfo processor call hints).map
        fun info => (info, hints.threadInfo)
    else if call.m = 1 ∨ call.n = 1 then
      some (gemvKernelInfo engine.machine backend call hints,
        hints.threadInfo)
    else gemmKernelInfo engine.machine backend call hints
  else none

/-! ## The inits -/

/-- The context fields that a fold reads. -/
def hintsOf (cntx : DlpGemmCntx) : Hints where
  mrHint := cntx.blksz.MR
  nrHint := cntx.blksz.NR
  kcHint := cntx.blksz.KC
  blkszSetMask := cntx.blkszSetMask
  gemmHints := cntx.gemmKernelHints
  threadInfo := cntx.threadInfo

/-- `dlp_init_and_get_kernel_hndl`. -/
def dlpInitAndGetKernelHndl (engine : Engine) (backend : GemmBackend)
    (call : GemmCall) (cntx : DlpGemmCntx) : DlpGemmCntx :=
  match dlpGetGemmKernelInfoByDtype engine backend call (hintsOf cntx) with
  | none => { cntx with hasKernel := false }
  | some (info, threadInfo) =>
      if info.dims.mr = 0 ∨ info.dims.nr = 0 then
        { cntx with threadInfo := threadInfo, hasKernel := false }
      else
        { cntx with
          threadInfo := threadInfo
          hasKernel := engine.jitKernel call info
          blksz :=
            { MC := roundUp cntx.blksz.MC info.dims.mr
              NC := roundUp cntx.blksz.NC info.dims.nr
              KC := info.kc
              MR := info.dims.mr
              NR := info.dims.nr }
          blkszSetMask :=
            { cntx.blkszSetMask with MR := true, NR := true } }

/-- The machines with a pack-B kernel, also the machines on which an entry
point insists on one. -/
def supportsPackB (processor : Processor) : GemmBackend → Bool
  | .bf16 => processor.isAvx512Bf16Configured
  | .u8s8 | .s8 => processor.avx512vnni

/-- The width that the search assigns to a panel under a context. -/
def panelNR (machine : Machine) (backend : GemmBackend) (n k : Nat)
    (cntx : DlpGemmCntx) : Nat :=
  backend.reorderedPanelNR machine n k cntx.blksz.MR cntx.blksz.NR
    cntx.blkszSetMask cntx.gemmKernelHints

/-- `getGemmPackBInfoForInputFastPath`: the panel width, if there is one. -/
def packBPanelDim (machine : Machine) (backend : GemmBackend) (n k : Nat)
    (cntx : DlpGemmCntx) : Option Nat :=
  if supportsPackB machine.processor backend then
    some (panelNR machine backend n k cntx)
  else none

/-- `dlp_init_and_get_packb_kernel_hndl`. -/
def dlpInitAndGetPackbKernelHndl (engine : Engine) (backend : GemmBackend)
    (n k csSrc : Nat) (cntx : DlpGemmCntx) : DlpGemmCntx :=
  match packBPanelDim engine.machine backend n k cntx with
  | none => { cntx with hasPackBKernel := false }
  | some panelDim =>
      if panelDim = 0 then { cntx with hasPackBKernel := false }
      else
        { cntx with
          hasPackBKernel :=
            engine.jitPackBKernel panelDim (decide (csSrc ≠ 1))
          blksz :=
            { cntx.blksz with
              NC := roundUp cntx.blksz.NC panelDim
              NR := panelDim }
          blkszSetMask := { cntx.blkszSetMask with NR := true } }

/-! ## The entry sequences -/

/-- The operation type whose global context a backend's entry points copy. -/
def operationType : GemmBackend → OperationType
  | .bf16 => .bf16bf16f32of32
  | .u8s8 => .u8s8s32os32
  | .s8 => .s8s8s32os32

/-- The global context of a backend's entry points. -/
def globalCntx (engine : Engine) (backend : GemmBackend)
    (supThres : DlpGemmSupThreshold) : DlpGemmCntx :=
  dlpGemmGetGlobalCntxObj engine.machine.processor supThres
    (operationType backend)

/-- The local context with which a native reorder starts to pack. -/
def nativeReorderCntx (engine : Engine) (backend : GemmBackend)
    (supThres : DlpGemmSupThreshold) (n k csB : Nat)
    (metadata : Option DlpMetadata) : Except DlpClscErr DlpGemmCntx := do
  let lcntx ← dlpGemmUpdCntxWithMetadata (globalCntx engine backend supThres)
    metadata
  dlpGemmValidateHints lcntx
  let lcntx := dlpInitAndGetPackbKernelHndl engine backend n k csB lcntx
  if lcntx.hasPackBKernel then
    dlpGemmValidateMetadataWithLcntx lcntx metadata
    .ok lcntx
  else .error .invalidJitKernel

/-- The F32 block sizes that a rerouted BF16 call puts into its context. -/
def withF32Blksz (processor : Processor) (lcntx : DlpGemmCntx) :
    DlpGemmCntx :=
  let f32 := dlpGemmCntxInitBlkszMap processor .f32f32f32of32
  { lcntx with blksz :=
    { lcntx.blksz with MR := f32.MR, NR := f32.NR, KC := f32.KC } }

/-- The merge of the BF16 entry points, skipped without native BF16. -/
def updBf16Cntx (processor : Processor) (lcntx : DlpGemmCntx)
    (metadata : Option DlpMetadata) : Except DlpClscErr DlpGemmCntx :=
  if processor.avx512bf16 then dlpGemmUpdCntxWithMetadata lcntx metadata
  else .ok lcntx

/-- The context and the call that an entry point hands to the engine. -/
def mergedCall (engine : Engine) (backend : GemmBackend)
    (supThres : DlpGemmSupThreshold) (call : GemmCall)
    (metadata : Option DlpMetadata) :
    Except DlpClscErr (DlpGemmCntx × GemmCall) :=
  let processor := engine.machine.processor
  let lcntx := (globalCntx engine backend supThres).withThreads call.rntm
  match backend with
  | .bf16 => do
      let lcntx ← updBf16Cntx processor lcntx metadata
      if processor.reroutesBf16 then
        if call.shapeChangingGlu then .error .notSupported
        else
          .ok (withF32Blksz processor lcntx,
            if call.m = 1 then { call with mtagB := .unpacked } else call)
      else .ok (lcntx, call)
  | .u8s8 | .s8 => do
      let lcntx ← dlpGemmUpdCntxWithMetadata lcntx metadata
      .ok (lcntx, call)

/-- The local context with which a GEMM call reaches its driver. -/
def gemmCntx (engine : Engine) (backend : GemmBackend)
    (supThres : DlpGemmSupThreshold) (call : GemmCall)
    (metadata : Option DlpMetadata) : Except DlpClscErr DlpGemmCntx := do
  let (lcntx, call) ← mergedCall engine backend supThres call metadata
  dlpGemmValidateHintsWithCall lcntx call.mtagB call.rntm.numThreads
    call.rntm.icWays call.rntm.jcWays
  let lcntx := dlpInitAndGetKernelHndl engine backend call lcntx
  if lcntx.hasKernel then
    let lcntx := dlpInitAndGetPackbKernelHndl engine backend call.n call.k
      call.csB lcntx
    if supportsPackB engine.machine.processor backend &&
        decide (1 < lcntx.blksz.NR) && !lcntx.hasPackBKernel then
      .error .invalidJitKernel
    else
      dlpGemmValidateMetadataWithLcntx lcntx metadata
      .ok lcntx
  else .error .invalidJitKernel

end AoclDlp.DecisionEngine.KernelInit
