import AoclDlp.Api.Normalisation
import AoclDlp.Foundations.Exits
import AoclDlp.Foundations.Memory
import AoclDlp.PostOps.Translate
import AoclDlp.Quant.SymQuant

/-!
# A call of the symmetrically quantised GEMM

`aocl_gemm_s8s8s32of32_sym_quant` as a program over the state that a caller
can observe: the error code of the metadata, the output matrix, the buffers
for the transposed scale factors and the order in which they come and go.
Every refusal records an error and jumps to one label, behind which the
buffers are returned.

Column major runs on swapped operands.  The scale factors are transposed into
fresh buffers, the group node is turned around and the decision engine gets
relabelled copies of the quantisation operations.
-/

namespace AoclDlp.Quant.SymQuantCall

open AoclDlp.Api.F32Gemm
open AoclDlp.Api.GemmCheck
open AoclDlp.Config.BlockSize
open AoclDlp.Config.LocalContext
open AoclDlp.Foundations.Exits
open AoclDlp.Foundations.Memory
open AoclDlp.PostOps.Translate
open AoclDlp.Quant.GroupSize
open AoclDlp.Quant.KernelInit
open AoclDlp.Quant.SymQuant

/-! ## The group node -/

/-- The bytes behind a pointer. -/
abbrev Bytes :=
  Nat → UInt8

/-- `dlp_gemm_group_post_op`, with the arrays behind its pointers. -/
structure GroupNode extends DlpGemmGroupPostOp where
  aZp : Option Bytes
  aZpLen : Int
  aScaleFactor : Option Bytes
  bZp : Option Bytes
  bZpLen : Int
  bScaleFactor : Option Bytes
  sfStorType : DlpType
  zpStorType : DlpType

/-- The scale factors of an operation; `scales` is what their pointer points
at when it is not NULL. -/
def scalePointer (quantOp : Option DlpQuantOp) (scales : Bytes) :
    Option Bytes :=
  (scaleFactorsOf quantOp).bind fun scl =>
    if scl.dataIsNull then none else some scales

/-- The type in which scale factors are stored, invalid without any. -/
def scaleStorType (quantOp : Option DlpQuantOp) : DlpType :=
  ((scaleFactorsOf quantOp).map DlpQparam.storType).getD .invalid

/-- `dlp_gemm_translate_to_group_postops_list`, with the node it writes. -/
def translateGroupNode (aQuantOp bQuantOp : Option DlpQuantOp)
    (aScales bScales : Bytes) (m n k : Int) :
    Except DlpClscErr GroupNode := do
  let groups ← dlpGemmTranslateToGroupPostopsList aQuantOp bQuantOp m n k
  .ok
    { groups with
      aZp := none
      aZpLen := 0
      aScaleFactor := scalePointer aQuantOp aScales
      bZp := none
      bZpLen := 0
      bScaleFactor := scalePointer bQuantOp bScales
      sfStorType := dlpGemmGetStorType (scaleStorType aQuantOp)
      zpStorType := .invalid }

/-! ## The observable state -/

/-- `error_code` of the metadata. -/
inductive ErrorCode where
  | success
  | failed (error : DlpClscErr)
  deriving DecidableEq, Repr

/-- `colmaj_a_scale_buf` and `colmaj_b_scale_buf`. -/
inductive ScaleBuffer where
  | a
  | b
  deriving DecidableEq, Repr

/-- `dlp_group_op`: the operations that the decision engine sees. -/
structure GroupOp where
  aPostQuantOp : DlpQuantOp
  bPostQuantOp : DlpQuantOp
  deriving DecidableEq, Repr

/-- What the entry point prepares for the frame. -/
structure SymQuantProblem where
  ops : Operands
  k : Nat
  alpha : Int
  beta : Int
  grpPostOp : GroupNode
  postOps : PostOpList
  groupOps : GroupOp
  call : QuantCall
  lcntx : DlpGemmCntx

/-- What a caller could observe on the way. -/
inductive Event where
  | allocated (buffer : ScaleBuffer)
  | freed (buffer : ScaleBuffer)
  | decorated (openmp : Bool) (problem : SymQuantProblem)

/-- The state of a call: the error code unless the metadata is NULL, the
buffers whose pointer is not NULL, the events so far and the output. -/
structure CallState (Cell : Type) where
  errorCode : Option ErrorCode
  held : ScaleBuffer → Bool
  log : List Event
  c : Nat → Cell

namespace CallState

variable {Cell : Type}

/-- `DLP_METADATA_SET_ERROR`. -/
def setError (code : ErrorCode) (state : CallState Cell) : CallState Cell :=
  { state with errorCode := state.errorCode.map fun _ => code }

/-- A buffer comes from the allocator. -/
def allocate (buffer : ScaleBuffer) (state : CallState Cell) :
    CallState Cell :=
  { state with
    held := Function.update state.held buffer true
    log := state.log ++ [.allocated buffer] }

/-- A buffer goes back unless its pointer is NULL. -/
def freeHeld (buffer : ScaleBuffer) (state : CallState Cell) :
    CallState Cell :=
  if state.held buffer then
    { state with log := state.log ++ [.freed buffer] }
  else state

/-- The code behind `err_hndl`. -/
def cleanUp (state : CallState Cell) : CallState Cell :=
  (state.freeHeld .a).freeHeld .b

end CallState

/-- The fields of `dlp_metadata_t` that a sym-quant GEMM reads. -/
structure SymQuantMetadata where
  cntx : DlpMetadata
  postOps : PostOpMetadata
  aQuantOp : Option DlpQuantOp
  bQuantOp : Option DlpQuantOp

/-- The fields that the checks of the quantised entry points read. -/
def SymQuantMetadata.quant (metadata : SymQuantMetadata) : QuantMetadata where
  cntx := metadata.cntx
  seqLength := metadata.postOps.seqLength
  hasGlu := metadata.postOps.glu.isSome
  aQuantOp := metadata.aQuantOp
  bQuantOp := metadata.bQuantOp

/-- What a call finds around it: the processor, the thresholds, the engine,
the runtime's threads, the scale factors behind the caller's pointers, the
outcome of the two allocations with what a fresh buffer holds, the
uninitialised array of nodes and the threading decorators. -/
structure CallSurroundings (Cell : Type) where
  processor : Processor
  supThres : DlpGemmSupThreshold
  engine : QuantEngine
  rntm : DlpGemmThreadInfo
  aScales : Bytes
  bScales : Bytes
  mallocA : Option Bytes
  mallocB : Option Bytes
  nodes : PostOpList
  decorator : Bool → SymQuantProblem → (Nat → Cell) → Nat → Cell

/-- The global context of S8S8S32OS32. -/
def CallSurroundings.globalCntx {Cell : Type}
    (around : CallSurroundings Cell) : DlpGemmCntx :=
  dlpGemmGetGlobalCntxObj around.processor around.supThres .s8s8s32os32

/-- A part of the entry point; an exit jumps to `err_hndl`. -/
abbrev Call (Cell : Type) :=
  EStateM Unit (CallState Cell)

section Call

variable {Cell : Type}

/-- Record an error and jump to the exit label. -/
def fail {Value : Type} (error : DlpClscErr) : Call Cell Value := do
  modify (CallState.setError (.failed error))
  throw ()

/-- Continue with the value of a fallible step, or fail with its error. -/
def check {Value : Type} : Except DlpClscErr Value → Call Cell Value
  | .ok value => pure value
  | .error error => fail error

/-- A fallible step that continues leaves the state alone. -/
theorem check_ok {Value : Type} {step : Except DlpClscErr Value}
    {value : Value} {state final : CallState Cell}
    (continues : check step state = .ok value final) :
    step = .ok value ∧ final = state := by
  cases step with
  | ok found =>
      cases continues
      exact ⟨rfl, rfl⟩
  | error error => cases continues

/-! ## Transposed scale factors -/

/-- The element moves of `dlp_transpose_scale_2d`, as destination and
source. -/
def transposeMoves (rows cols : Nat) : List (Nat × Nat) :=
  (List.range rows).flatMap fun r =>
    (List.range cols).map fun c => (c * rows + r, r * cols + c)

/-- `dlp_transpose_scale_2d`. -/
def dlpTransposeScale2d (dst src : Bytes) (rows cols elemSize : Nat) :
    Bytes :=
  copyElems elemSize (transposeMoves rows cols) src dst

/-- `sf_elem_size`. -/
def sfElemSize (node : GroupNode) : Nat :=
  if node.sfStorType = .bf16 then 2 else 4

/-- `num_groups`. -/
def numGroups (groupSize k : Nat) : Nat :=
  (k + groupSize - 1) / groupSize

/-- `a_ng`. -/
def aNg (node : GroupNode) (k : Nat) : Nat :=
  if node.aScaleFactorDim = .perToken then 1
  else numGroups node.groupSize.toNat k

/-- `b_ng`. -/
def bNg (node : GroupNode) (k : Nat) : Nat :=
  if node.bScaleFactorDim = .perChannel then 1
  else numGroups node.groupSize.toNat k

/-- Transpose scale factors into a fresh buffer.  A failed allocation jumps to
the exit label without recording an error. -/
def transposeInto (buffer : ScaleBuffer) (malloc scales : Option Bytes)
    (rows cols elemSize : Nat) : Call Cell (Option Bytes) :=
  match scales with
  | none => pure none
  | some scales =>
      match malloc with
      | none => throw ()
      | some fresh => do
          modify (CallState.allocate buffer)
          pure (some (dlpTransposeScale2d fresh scales rows cols elemSize))

/-- A transposition that continues filled a fresh buffer. -/
theorem transposeInto_ok {buffer : ScaleBuffer} {malloc : Option Bytes}
    {scales : Bytes} {rows cols elemSize : Nat} {result : Option Bytes}
    {state final : CallState Cell}
    (continues : transposeInto buffer malloc (some scales) rows cols elemSize
      state = .ok result final) :
    ∃ fresh, result =
      some (dlpTransposeScale2d fresh scales rows cols elemSize) := by
  cases malloc with
  | none => cases continues
  | some fresh =>
      cases continues
      exact ⟨fresh, rfl⟩

/-- A granularity in the other operand's terms: the one that collapses the
groups becomes the other's, every other one is by groups. -/
def swappedDim (collapses becomes dim : ParamDim) : ParamDim :=
  if dim = collapses then becomes else .perGroup

/-- The group node with the operands in each other's place. -/
def swappedNode (node : GroupNode) (aBuf bBuf : Option Bytes) : GroupNode :=
  { node with
    aScaleFactor := aBuf
    bScaleFactor := bBuf
    aScaleFactorLen := node.bScaleFactorLen
    bScaleFactorLen := node.aScaleFactorLen
    aZp := node.bZp
    aZpLen := node.bZpLen
    bZp := node.aZp
    bZpLen := node.aZpLen
    aScaleFactorDim :=
      swappedDim .perChannel .perToken node.bScaleFactorDim
    bScaleFactorDim :=
      swappedDim .perToken .perChannel node.aScaleFactorDim }

/-- The column-major swap of the group node. -/
def columnMajorNode (around : CallSurroundings Cell) (args : GemmArgs)
    (node : GroupNode) : Call Cell GroupNode := do
  let k := args.k.toNat
  let aBuf ← transposeInto .a around.mallocA node.bScaleFactor (bNg node k)
    args.n.toNat (sfElemSize node)
  let bBuf ← transposeInto .b around.mallocB node.aScaleFactor args.m.toNat
    (aNg node k) (sfElemSize node)
  pure (swappedNode node aBuf bBuf)

/-- The group node that the frame gets. -/
def frameNode (around : CallSurroundings Cell) (args : GemmArgs)
    (node : GroupNode) : Call Cell GroupNode :=
  if isColumnMajor args.order then columnMajorNode around args node
  else pure node

/-- A quantisation operation under the other operand's granularities. -/
def relabelled (quantOp : DlpQuantOp) (collapses becomes : ParamDim) :
    DlpQuantOp :=
  { quantOp with
    dequantScaleFactors := quantOp.dequantScaleFactors.map fun scl =>
      { scl with outerDim := swappedDim collapses becomes scl.outerDim } }

/-- The operations that the decision engine gets. -/
def kernelGroupOps (args : GemmArgs) (aOp bOp : DlpQuantOp) : GroupOp :=
  if isColumnMajor args.order then
    ⟨relabelled bOp .perChannel .perToken,
      relabelled aOp .perToken .perChannel⟩
  else ⟨aOp, bOp⟩

/-! ## The entry point -/

/-- What the checks of a call establish. -/
structure AcceptedCall where
  metadata : SymQuantMetadata
  aOp : DlpQuantOp
  bOp : DlpQuantOp
  node : GroupNode

/-- The metadata that a call states, with the operations that it needs. -/
def statedOps (metadata : Option SymQuantMetadata) :
    Except DlpClscErr (SymQuantMetadata × DlpQuantOp × DlpQuantOp) :=
  match metadata with
  | none => .error .nullPointer
  | some stated => do
      let (_, aOp, bOp) ← requiredQuantOps (some stated.quant)
      .ok (stated, aOp, bOp)

/-- The checks up to the group node. -/
def acceptCall (around : CallSurroundings Cell) (args : GemmArgs)
    (metadata : Option SymQuantMetadata) :
    Except DlpClscErr AcceptedCall := do
  runRules [⟨!around.processor.avx512vnni, .notSupported⟩]
  aoclDlpGemmCheck args
  runRules
    [⟨isColumnMajor args.order &&
        metadata.any fun stated => decide (0 < stated.postOps.seqLength),
        .notSupported⟩,
      ⟨refusesTags args, .notSupported⟩]
  let (stated, aOp, bOp) ← statedOps metadata
  let node ← translateGroupNode (some aOp) (some bOp) around.aScales
    around.bScales args.m args.n args.k
  .ok ⟨stated, aOp, bOp, node⟩

/-- The operands of the frame: column major swaps A and B. -/
def symQuantOperands (args : GemmArgs) : Operands :=
  let tags := symQuantTags args
  let ops := { storedOperands args with mtagA := tags.1, mtagB := tags.2 }
  if isColumnMajor args.order then ops.swap else ops

/-- The steps between the group node and the kernel request. -/
def prepareProblem (around : CallSurroundings Cell) (args : SymQuantArgs)
    (accepted : AcceptedCall) (node : GroupNode) :
    Except DlpClscErr SymQuantProblem := do
  let postOps ← dlpGemmTranslateToPostOpsList (some accepted.metadata.postOps)
    around.nodes (.order args.gemm.order) args.gemm.m args.gemm.n
  runRules [⟨accepted.metadata.postOps.glu.isSome, .notSupported⟩]
  let call := frameCall args accepted.aOp accepted.bOp .f32
  let lcntx ← symQuantCntx around.globalCntx accepted.metadata.cntx call
    node.groupSize.toNat
  .ok
    { ops := symQuantOperands args.gemm
      k := args.gemm.k.toNat
      alpha := args.alpha
      beta := args.beta
      grpPostOp := node
      postOps := postOps
      groupOps := kernelGroupOps args.gemm accepted.aOp accepted.bOp
      call := call
      lcntx := lcntx }

/-- The problem that a call prepares for the frame. -/
def preparedProblem (around : CallSurroundings Cell) (args : SymQuantArgs)
    (metadata : Option SymQuantMetadata) : Call Cell SymQuantProblem := do
  let accepted ← check (acceptCall around args.gemm metadata)
  let node ← frameNode around args.gemm accepted.node
  check (prepareProblem around args accepted node)

/-- The storage types of scale factors for which the generators emit a
kernel. -/
def jitTakesScales (groupOps : GroupOp) : Bool :=
  let aScaleType := scaleStorType (some groupOps.aPostQuantOp)
  let bScaleType := scaleStorType (some groupOps.bPostQuantOp)
  (decide (aScaleType = .f32) || decide (aScaleType = .bf16)) &&
    (decide (bScaleType = .f32) || decide (bScaleType = .bf16)) &&
    (decide (aScaleType = .bf16) == decide (bScaleType = .bf16))

/-- The kernel request: the problem with the context that the init leaves,
unless the handle is NULL. -/
def quantKernelHandle (engine : QuantEngine) (problem : SymQuantProblem) :
    Option SymQuantProblem :=
  match dlpInitAndGetGemmQuantKernelHndl engine .s8 problem.call
      problem.lcntx with
  | (_, none) => none
  | (lcntx, some _) =>
      if jitTakesScales problem.groupOps then
        some { problem with lcntx := lcntx }
      else none

/-- Call a threading decorator. -/
def decorate (around : CallSurroundings Cell) (problem : SymQuantProblem) :
    Call Cell Unit :=
  let openmp := !dlpIsSingleThread around.rntm
  modify fun state =>
    { state with
      log := state.log ++ [.decorated openmp problem]
      c := around.decorator openmp problem state.c }

/-- Request a kernel and run the frame on it. -/
def requestAndDecorate (around : CallSurroundings Cell)
    (problem : SymQuantProblem) : Call Cell Unit :=
  match quantKernelHandle around.engine problem with
  | none => fail .invalidJitKernel
  | some problem => decorate around problem

/-- The entry point up to its exit label. -/
def symQuantBody (around : CallSurroundings Cell) (args : SymQuantArgs)
    (metadata : Option SymQuantMetadata) : Call Cell Unit := do
  modify (CallState.setError .success)
  let problem ← preparedProblem around args metadata
  requestAndDecorate around problem

/-- The state in which a call starts; `code` is what the metadata held. -/
def startState (metadata : Option SymQuantMetadata) (code : ErrorCode)
    (c : Nat → Cell) : CallState Cell where
  errorCode := metadata.map fun _ => code
  held := fun _ => false
  log := []
  c := c

/-- `aocl_gemm_s8s8s32of32_sym_quant`: the state that it leaves. -/
def aoclGemmS8s8s32of32SymQuant (around : CallSurroundings Cell)
    (args : SymQuantArgs) (metadata : Option SymQuantMetadata)
    (code : ErrorCode) (c : Nat → Cell) : CallState Cell :=
  (finalState (symQuantBody around args metadata)
    (startState metadata code c)).cleanUp

end Call

end AoclDlp.Quant.SymQuantCall
