import AoclDlp.Quant.KernelInit

/-!
# The symmetrically quantised GEMM

`aocl_gemm_s8s8s32of32_sym_quant` and its S8S4 sibling check their arguments,
translate the quantisation groups, prepare a local context and ask the
quantised backend for a kernel.  The S8S8 entry merges the caller's block
sizes into its context; the S8S4 entry keeps the table's.

The frames recompute the K block from the table and decide for themselves
whether to run the GEMV branch.  The reorder lays B out with the blocks of
the table, aligned to the group.
-/

namespace AoclDlp.Quant.SymQuant

open AoclDlp.Api.GemmCheck
open AoclDlp.Config.BlockSize
open AoclDlp.Config.LocalContext
open AoclDlp.Quant.GroupSize
open AoclDlp.Quant.KernelInit

/-! ## The entry points -/

/-- What an entry point finds around it: the processor, the thresholds of
S8S8S32OS32, the engine, the runtime's threads, the outcome of the post-op
translation and of its capability gate, and whether the transposed scale
buffers can be allocated. -/
structure Surroundings where
  processor : Processor
  supThres : DlpGemmSupThreshold
  engine : QuantEngine
  rntm : DlpGemmThreadInfo
  postOps : Except DlpClscErr Unit
  hasJitOnlyOp : Bool
  scaleBuffersFit : Bool

/-- The global context of S8S8S32OS32. -/
def Surroundings.globalCntx (around : Surroundings) : DlpGemmCntx :=
  dlpGemmGetGlobalCntxObj around.processor around.supThres .s8s8s32os32

/-- The arguments of a sym-quant GEMM. -/
structure SymQuantArgs where
  gemm : GemmArgs
  alpha : Int
  beta : Int
  deriving DecidableEq, Repr

/-- What an entry point hands to the frame. -/
structure QuantRun where
  call : QuantCall
  groupSize : Nat
  lcntx : DlpGemmCntx
  kernel : QuantKernelInfo
  deriving DecidableEq, Repr

/-- The memory tags of A and B with which a call continues. -/
def symQuantTags (args : GemmArgs) : MemoryTag × MemoryTag :=
  let mtagA := dlpParamMapCharToLpmtag args.memFormatA
  let mtagB := dlpParamMapCharToLpmtag args.memFormatB
  if isRowMajor args.order then
    (if isTrans args.transa then .pack
      else if mtagA = .pack then .unpacked else mtagA,
      if mtagB = .unpacked then .pack else mtagB)
  else
    (if mtagA = .unpacked then .pack else mtagA,
      if isTrans args.transb then .pack
      else if mtagB = .pack then .unpacked else mtagB)

/-- The tags that the S8S8 entry refuses: a reordered A, and any reordered
operand in column major. -/
def refusesTags (args : GemmArgs) : Bool :=
  let mtagA := dlpParamMapCharToLpmtag args.memFormatA
  let mtagB := dlpParamMapCharToLpmtag args.memFormatB
  decide (mtagA = .reordered) ||
    (isColumnMajor args.order && decide (mtagB = .reordered))

/-- The granularities that the sym-quant entries refuse. -/
def refusesDims (aScl bScl : DlpQparam) : Bool :=
  decide (aScl.outerDim ≠ .perToken ∧ aScl.outerDim ≠ .perGroup) ||
    decide (bScl.outerDim ≠ .perChannel ∧ bScl.outerDim ≠ .perGroup)

/-- The quantisation operations that the sym-quant entries require, with
their scale factors. -/
def requiredQuantOps (metadata : Option QuantMetadata) :
    Except DlpClscErr (QuantMetadata × DlpQuantOp × DlpQuantOp) :=
  match metadata with
  | none => .error .nullPointer
  | some metadata =>
      match metadata.aQuantOp, metadata.bQuantOp with
      | some aOp, some bOp =>
          match aOp.dequantScaleFactors, bOp.dequantScaleFactors with
          | some aScl, some bScl =>
              if refusesDims aScl bScl then .error .notSupported
              else .ok (metadata, aOp, bOp)
          | _, _ => .error .nullPointer
      | _, _ => .error .nullPointer

/-- The call that the frame sees: column major swaps the operands. -/
def frameCall (args : SymQuantArgs) (aOp bOp : DlpQuantOp)
    (cDownscale : DlpType) : QuantCall :=
  let mtags := symQuantTags args.gemm
  if isColumnMajor args.gemm.order then
    ⟨args.gemm.n.toNat, args.gemm.m.toNat, args.gemm.k.toNat, mtags.2,
      mtags.1, args.alpha, args.beta, bOp.groupSize.toNat, cDownscale⟩
  else
    ⟨args.gemm.m.toNat, args.gemm.n.toNat, args.gemm.k.toNat, mtags.1,
      mtags.2, args.alpha, args.beta, aOp.groupSize.toNat, cDownscale⟩

/-- The context with its K block settled for a call. -/
def withSymQuantKC (lcntx : DlpGemmCntx) (groupSize n k : Nat) :
    DlpGemmCntx :=
  { lcntx with blksz :=
    { lcntx.blksz with
      KC := symQuantKC lcntx.blksz.KC (normalisedGroupSize groupSize k) n
        k } }

/-- The local context with which the S8S8 entry asks for a kernel. -/
def symQuantCntx (globalCntx : DlpGemmCntx) (metadata : DlpMetadata)
    (call : QuantCall) (groupSize : Nat) : Except DlpClscErr DlpGemmCntx := do
  let lcntx ← dlpGemmUpdCntxWithMetadata globalCntx (some metadata)
  .ok (withSymQuantKC lcntx groupSize call.n call.k)

/-- The kernel request that ends both entries. -/
def requestKernel (engine : QuantEngine) (backend : QuantBackend)
    (call : QuantCall) (groupSize : Nat) (lcntx : DlpGemmCntx) :
    Except DlpClscErr (Option QuantRun) :=
  match dlpInitAndGetGemmQuantKernelHndl engine backend call lcntx with
  | (_, none) => .error .invalidJitKernel
  | (lcntx, some kernel) => .ok (some ⟨call, groupSize, lcntx, kernel⟩)

/--
`aocl_gemm_s8s8s32of32_sym_quant`, and its BF16 sibling with another
`c_downscale`: the error code, or what it hands to the frame.  A call whose
scale buffers do not fit returns success and hands nothing over.
-/
def aoclGemmS8s8s32SymQuant (around : Surroundings) (cDownscale : DlpType)
    (args : SymQuantArgs) (metadata : Option QuantMetadata) :
    Except DlpClscErr (Option QuantRun) := do
  runRules [⟨!around.processor.avx512vnni, .notSupported⟩]
  aoclDlpGemmCheck args.gemm
  runRules
    [⟨isColumnMajor args.gemm.order &&
        metadata.any fun stated => decide (0 < stated.seqLength),
        .notSupported⟩,
      ⟨refusesTags args.gemm, .notSupported⟩]
  let (stated, aOp, bOp) ← requiredQuantOps metadata
  let grpPostOp ← dlpGemmTranslateToGroupPostopsList (some aOp) (some bOp)
    args.gemm.m args.gemm.n args.gemm.k
  if isColumnMajor args.gemm.order && !around.scaleBuffersFit then .ok none
  else
    around.postOps
    runRules [⟨stated.hasGlu, .notSupported⟩]
    let call := frameCall args aOp bOp cDownscale
    let groupSize := grpPostOp.groupSize.toNat
    let lcntx ← symQuantCntx around.globalCntx stated.cntx call groupSize
    requestKernel around.engine .s8 call groupSize lcntx

/-- `aocl_gemm_s8s4s32of32`, and its BF16 sibling: row major only, and no
metadata reaches the context. -/
def aoclGemmS8s4s32 (around : Surroundings) (cDownscale : DlpType)
    (args : SymQuantArgs) (metadata : Option QuantMetadata) :
    Except DlpClscErr (Option QuantRun) := do
  runRules [⟨!around.processor.avx512vnni, .notSupported⟩]
  aoclDlpGemmCheck args.gemm
  runRules
    [⟨!isRowMajor args.gemm.order, .notSupported⟩,
      ⟨decide (dlpParamMapCharToLpmtag args.gemm.memFormatA = .reordered),
        .notSupported⟩]
  let (_, aOp, bOp) ← requiredQuantOps metadata
  let grpPostOp ← dlpGemmTranslateToGroupPostopsList (some aOp) (some bOp)
    args.gemm.m args.gemm.n args.gemm.k
  around.postOps
  runRules [⟨around.hasJitOnlyOp, .notSupported⟩]
  let call := frameCall args aOp bOp cDownscale
  let groupSize := grpPostOp.groupSize.toNat
  requestKernel around.engine .s8s4 call groupSize
    (withSymQuantKC (around.globalCntx.withThreads around.rntm) groupSize
      call.n call.k)

/-! ## The frames -/

/-- The K block that a frame recomputes from the table. -/
def frameKC (globalCntx : DlpGemmCntx) (call : QuantCall)
    (groupSize : Nat) : Nat :=
  symQuantKC globalCntx.blksz.KC (normalisedGroupSize groupSize call.k)
    call.n call.k

/-- The GEMV gate of `dlp_gemm_rowvar_s8s8s32o32_sym_quant`. -/
def TakesGemv (globalCntx : DlpGemmCntx) (call : QuantCall)
    (groupSize : Nat) : Prop :=
  call.k % groupSize = 0 ∧
    frameKC globalCntx call groupSize % groupSize = 0 ∧
    call.mtagB = .reordered ∧ (call.m = 1 ∨ call.n = 1)

/-- The GEMV gate of `dlp_gemm_rowvar_s8s4s32o32`. -/
def TakesGemvS8s4 (globalCntx : DlpGemmCntx) (call : QuantCall)
    (groupSize : Nat) : Prop :=
  0 < groupSize ∧ TakesGemv globalCntx call groupSize

instance (globalCntx : DlpGemmCntx) (call : QuantCall) (groupSize : Nat) :
    Decidable (TakesGemv globalCntx call groupSize) :=
  inferInstanceAs (Decidable (_ ∧ _))

/-- How a reordered B is laid out: a single column, or panels of the given
blocks. -/
inductive BLayout where
  | column
  | panels (NR NC KC : Nat)
  deriving DecidableEq, Repr

/-- The layout under which the S8S8 frame addresses a reordered B.  The
five-loop steps by its own `KC`; the GEMV branch for one row takes the `KC`
of the context, aligned to the group. -/
def addressedLayout (globalCntx : DlpGemmCntx) (run : QuantRun) : BLayout :=
  if TakesGemv globalCntx run.call run.groupSize then
    if run.call.n = 1 then .column
    else
      .panels run.lcntx.blksz.NR run.lcntx.blksz.NC
        (dlpGemmAlignKcToGroup run.lcntx.blksz.KC run.groupSize)
  else
    .panels run.lcntx.blksz.NR run.lcntx.blksz.NC
      (frameKC globalCntx run.call run.groupSize)

/-! ## The reorder -/

/-- `aocl_reorder_s8s8s32os32_sym_quant`: the layout that it writes. -/
def aoclReorderS8s8s32os32SymQuant (around : Surroundings)
    (args : ReorderArgs) (metadata : Option QuantMetadata) :
    Except DlpClscErr BLayout := do
  runRules [⟨!around.processor.avx512vnni, .notSupported⟩]
  let groupSize ← dlpGetSymQuantGroupSizeFromMetadata metadata args.k
  aoclDlpReorderCheck args
  runRules
    [⟨decide (dlpParamMapCharToLpmatType args.matType = .aMatrix),
      .notSupported⟩]
  let gs := groupSize.toNat
  let k := args.k.toNat
  let blksz := around.globalCntx.blksz
  let KC := dlpGemmAlignKcToGroup blksz.KC gs
  if args.n = 1 ∧ k % gs = 0 ∧ KC % gs = 0 then .ok .column
  else
    .ok (.panels blksz.NR blksz.NC (if gs ≠ k then KC else blksz.KC))

/-! ## What an accepted call hands over -/

/-- The blocks of the S8S8S32OS32 table, whose `KC` depends on the map. -/
structure TableBlksz (blksz : DlpGemmBlockSize) : Prop where
  MC : blksz.MC = 144
  NC : blksz.NC = 1024
  KC : 4 ≤ blksz.KC
  MR : blksz.MR = 6
  NR : blksz.NR = 64

/-- Every map installs such a table. -/
theorem tableBlksz_installed (processor : Processor) :
    TableBlksz (dlpGemmCntxInitBlkszMap processor .s8s8s32os32) := by
  unfold dlpGemmCntxInitBlkszMap withZen3Override
  split_ifs <;> exact ⟨rfl, rfl, by decide, rfl, rfl⟩

theorem Surroundings.tableBlksz (around : Surroundings) :
    TableBlksz around.globalCntx.blksz :=
  tableBlksz_installed around.processor

/-- The kernel request of a quantised call over a prepared context. -/
structure Requested (engine : QuantEngine) (backend : QuantBackend)
    (lcntx : DlpGemmCntx) (run : QuantRun) : Prop where
  legal : LegalGroup run.groupSize run.call.k
  normalised : normalisedGroupSize run.call.groupSize run.call.k =
    run.groupSize
  inits : dlpInitAndGetGemmQuantKernelHndl engine backend run.call lcntx =
    (run.lcntx, some run.kernel)

/-- What an accepted call of an entry was given. -/
structure Accepted (cDownscale : DlpType) (args : SymQuantArgs)
    (metadata : QuantMetadata) (aOp bOp : DlpQuantOp) (run : QuantRun) :
    Prop where
  statesA : metadata.aQuantOp = some aOp
  statesB : metadata.bQuantOp = some bOp
  call : run.call = frameCall args aOp bOp cDownscale
  groupSize : (run.groupSize : Int) =
    groupSizeOf args.gemm.k (some bOp)
  checks : aoclDlpGemmCheck args.gemm = .ok ()

theorem requestKernel_some {engine : QuantEngine} {backend : QuantBackend}
    {call : QuantCall} {groupSize : Nat} {lcntx : DlpGemmCntx}
    {run : QuantRun}
    (requests : requestKernel engine backend call groupSize lcntx =
      .ok (some run)) :
    run.call = call ∧ run.groupSize = groupSize ∧
      dlpInitAndGetGemmQuantKernelHndl engine backend call lcntx =
        (run.lcntx, some run.kernel) := by
  unfold requestKernel at requests
  split at requests
  next => cases requests
  next inits =>
    cases requests
    exact ⟨rfl, rfl, inits⟩

/-- The group size of either operation normalises to the translated one. -/
theorem normalised_of_translated {aOp bOp : DlpQuantOp} {k : Int}
    {grpPostOp : DlpGemmGroupPostOp}
    (translated : Translated aOp bOp k grpPostOp) :
    normalisedGroupSize aOp.groupSize.toNat k.toNat =
        grpPostOp.groupSize.toNat ∧
      normalisedGroupSize bOp.groupSize.toNat k.toNat =
        grpPostOp.groupSize.toNat := by
  have same := translated.same
  have size := translated.groupSize
  have pos := translated.legal.pos
  have le := translated.legal.le
  simp only [groupSizeOf_some] at same size
  unfold normalisedGroupSize
  constructor
  · split_ifs at same size ⊢ <;> omega
  · split_ifs at same size ⊢ <;> omega

theorem frameCall_k (args : SymQuantArgs) (aOp bOp : DlpQuantOp)
    (cDownscale : DlpType) :
    (frameCall args aOp bOp cDownscale).k = args.gemm.k.toNat := by
  unfold frameCall
  split <;> rfl

/-- The engine's group size normalises to the frame's. -/
theorem frameCall_normalised (args : SymQuantArgs) {aOp bOp : DlpQuantOp}
    (cDownscale : DlpType) {grpPostOp : DlpGemmGroupPostOp}
    (translated : Translated aOp bOp args.gemm.k grpPostOp) :
    normalisedGroupSize (frameCall args aOp bOp cDownscale).groupSize
        args.gemm.k.toNat =
      grpPostOp.groupSize.toNat := by
  have both := normalised_of_translated translated
  unfold frameCall
  split
  · exact both.2
  · exact both.1

theorem requiredQuantOps_ok {metadata : Option QuantMetadata}
    {stated : QuantMetadata} {aOp bOp : DlpQuantOp}
    (requires : requiredQuantOps metadata = .ok (stated, aOp, bOp)) :
    metadata = some stated ∧ stated.aQuantOp = some aOp ∧
      stated.bQuantOp = some bOp := by
  unfold requiredQuantOps at requires
  split at requires
  · cases requires
  · split at requires
    next statesA statesB =>
      split at requires
      · split at requires
        · cases requires
        · cases requires
          exact ⟨rfl, statesA, statesB⟩
      · cases requires
    next => cases requires

/-- The request that follows a translation. -/
theorem requested_of_translated {engine : QuantEngine}
    {backend : QuantBackend} {cDownscale : DlpType} {args : SymQuantArgs}
    {aOp bOp : DlpQuantOp} {grpPostOp : DlpGemmGroupPostOp}
    {lcntx : DlpGemmCntx} {run : QuantRun}
    (translated : Translated aOp bOp args.gemm.k grpPostOp)
    (requests : requestKernel engine backend
      (frameCall args aOp bOp cDownscale) grpPostOp.groupSize.toNat lcntx =
        .ok (some run)) :
    Requested engine backend lcntx run := by
  rcases requestKernel_some requests with ⟨call, size, inits⟩
  refine ⟨?_, ?_, ?_⟩
  · rw [call, size, frameCall_k]
    exact translated.legal
  · rw [call, size, frameCall_k]
    exact frameCall_normalised args cDownscale translated
  · rw [call]
    exact inits

/-- A reordered B makes the call row major. -/
theorem rowMajor_of_reordered {args : GemmArgs}
    (tag : dlpParamMapCharToLpmtag args.memFormatB = .reordered)
    (accepts : refusesTags args = false) :
    isColumnMajor args.order = false := by
  unfold refusesTags at accepts
  simp only [tag, decide_true, Bool.and_true, Bool.or_eq_false_iff] at accepts
  exact accepts.2

/-- An S8S8 call that reaches the frame. -/
theorem s8s8_of_some {around : Surroundings} {cDownscale : DlpType}
    {args : SymQuantArgs} {metadata : QuantMetadata} {run : QuantRun}
    (runs : aoclGemmS8s8s32SymQuant around cDownscale args (some metadata) =
      .ok (some run)) :
    ∃ aOp bOp lcntx, Accepted cDownscale args metadata aOp bOp run ∧
      symQuantCntx around.globalCntx metadata.cntx run.call run.groupSize =
        .ok lcntx ∧
      Requested around.engine .s8 lcntx run ∧
      refusesTags args.gemm = false := by
  unfold aoclGemmS8s8s32SymQuant at runs
  rcases bind_ok runs with ⟨_, -, runs⟩
  rcases bind_ok runs with ⟨_, checks, runs⟩
  rcases bind_ok runs with ⟨_, tags, runs⟩
  rcases bind_ok runs with ⟨⟨stated, aOp, bOp⟩, requires, runs⟩
  rcases bind_ok runs with ⟨grpPostOp, translates, runs⟩
  dsimp only at runs translates
  split at runs
  · cases runs
  rcases bind_ok runs with ⟨_, -, runs⟩
  rcases bind_ok runs with ⟨_, -, runs⟩
  rcases bind_ok runs with ⟨lcntx, prepares, requests⟩
  rcases requiredQuantOps_ok requires with ⟨same, statesA, statesB⟩
  cases same
  have translated := translated_of_ok (sized_of_check checks).k_pos translates
  rcases requestKernel_some requests with ⟨call, size, -⟩
  refine ⟨aOp, bOp, lcntx, ⟨statesA, statesB, call, ?_, checks⟩, ?_,
    requested_of_translated translated requests, ?_⟩
  · rw [size, ← translated.same, ← translated.groupSize]
    exact Int.toNat_of_nonneg translated.nonneg
  · rw [call, size]
    exact prepares
  · exact (runRules_ok_iff _).mp tags ⟨refusesTags args.gemm, .notSupported⟩
      (by simp)

/-- A successful call over a reordered B reaches the frame. -/
theorem some_of_reordered {around : Surroundings} {cDownscale : DlpType}
    {args : SymQuantArgs} {metadata : Option QuantMetadata}
    {outcome : Option QuantRun}
    (tag : dlpParamMapCharToLpmtag args.gemm.memFormatB = .reordered)
    (succeeds : aoclGemmS8s8s32SymQuant around cDownscale args metadata =
      .ok outcome) :
    ∃ run, outcome = some run := by
  unfold aoclGemmS8s8s32SymQuant at succeeds
  rcases bind_ok succeeds with ⟨_, -, succeeds⟩
  rcases bind_ok succeeds with ⟨_, -, succeeds⟩
  rcases bind_ok succeeds with ⟨_, tags, succeeds⟩
  rcases bind_ok succeeds with ⟨_, -, succeeds⟩
  rcases bind_ok succeeds with ⟨_, -, succeeds⟩
  have rowMajor := rowMajor_of_reordered tag ((runRules_ok_iff _).mp tags
    ⟨refusesTags args.gemm, .notSupported⟩ (by simp))
  dsimp only at succeeds
  rw [rowMajor, Bool.false_and, if_neg Bool.false_ne_true] at succeeds
  rcases bind_ok succeeds with ⟨_, -, succeeds⟩
  rcases bind_ok succeeds with ⟨_, -, succeeds⟩
  rcases bind_ok succeeds with ⟨_, -, succeeds⟩
  unfold requestKernel at succeeds
  split at succeeds
  · cases succeeds
  · cases succeeds
    exact ⟨_, rfl⟩

end AoclDlp.Quant.SymQuant
