import AoclDlp.Api.GemmCheck
import AoclDlp.Foundations.MachineInt
import AoclDlp.Quant.GroupSize
import Mathlib.Data.Nat.Count
import Mathlib.Logic.Function.Basic

/-!
# Translating post-operations

A caller describes its post-operations by one array for each kind and a
sequence of kinds.  `dlp_gemm_translate_to_post_ops_list` walks the sequence
with one counter for each kind, checks the struct that the counter points at
and writes a node; the nodes live in an array and name their successor.  A
gated linear unit may be appended as the last node.

A pointer is an address or NULL; where the code reads through a pointer of a
node, the pointer holds what it points at.
-/

namespace AoclDlp.PostOps.Translate

open AoclDlp.Api.GemmCheck
open AoclDlp.Config.LocalContext
open AoclDlp.Foundations.MachineInt
open AoclDlp.Quant.GroupSize

/-! ## What the caller describes -/

/-- `DLP_ELT_ALGO_TYPE`; C lets a caller pass other values. -/
inductive DlpEltAlgoType where
  | relu
  | prelu
  | geluTanh
  | geluErf
  | clip
  | swish
  | tanh
  | sigmoid
  | mish
  | other (value : Int)
  deriving DecidableEq, Repr

/-- `DLP_GLU_ALGO_TYPE`. -/
inductive DlpGluAlgoType where
  | gatedSwiglu
  | gatedSwigluAndMul
  | other (value : Int)
  deriving DecidableEq, Repr

/-- `DLP_POST_OP_TYPE`. -/
inductive DlpPostOpType where
  | eltwise
  | bias
  | scale
  | matrixAdd
  | matrixMul
  | other (value : Int)
  deriving DecidableEq, Repr

/-- `dlp_sf_t`. -/
structure DlpSf where
  scaleFactor : Option Nat
  scaleFactorLen : Int
  scaleFactorType : DlpType
  scaleFactorDim : ParamDim
  deriving DecidableEq, Repr

/-- `dlp_zp_t`. -/
structure DlpZp where
  zeroPoint : Option Nat
  zeroPointLen : Int
  zeroPointType : DlpType
  deriving DecidableEq, Repr

/-- `dlp_scale_t`. -/
structure DlpScale where
  sf : Option DlpSf
  zp : Option DlpZp
  deriving DecidableEq, Repr

/-- `dlp_eltwise_algo_t`. -/
structure DlpEltwiseAlgo where
  alpha : Option Nat
  beta : Option Nat
  algoType : DlpEltAlgoType
  storType : DlpType
  deriving DecidableEq, Repr

/-- `dlp_post_op_eltwise`. -/
structure DlpPostOpEltwise where
  sf : Option DlpSf
  algo : DlpEltwiseAlgo
  deriving DecidableEq, Repr

/-- `dlp_post_op_bias`. -/
structure DlpPostOpBias where
  bias : Option Nat
  storType : DlpType
  sf : Option DlpSf
  zp : Option DlpZp
  biasLen : Int
  deriving DecidableEq, Repr

/-- `dlp_post_op_matrix_add`, also `dlp_post_op_matrix_mul`. -/
structure DlpPostOpMatrix where
  matrix : Option Nat
  ldm : Int
  storType : DlpType
  sf : Option DlpSf
  deriving DecidableEq, Repr

/-- `dlp_term_op_glu`. -/
structure DlpTermOpGlu where
  algoType : DlpGluAlgoType
  d : Option Nat
  ldD : Int
  alpha : Option Nat
  beta : Option Nat
  storType : DlpType
  deriving DecidableEq, Repr

/-- The fields of `dlp_metadata_t` that describe post-operations; an array is
NULL or long enough for its kind. -/
structure PostOpMetadata where
  scale : Option (Nat → DlpScale)
  eltwise : Option (Nat → DlpPostOpEltwise)
  bias : Option (Nat → DlpPostOpBias)
  matrixAdd : Option (Nat → DlpPostOpMatrix)
  matrixMul : Option (Nat → DlpPostOpMatrix)
  seqLength : Int
  seqVector : Option (Nat → DlpPostOpType)
  glu : Option DlpTermOpGlu

/-! ## The nodes -/

/-- `DLP_GEMM_POST_OP_CODE`. -/
inductive DlpGemmPostOpCode where
  | disable
  | bias
  | relu
  | reluScale
  | geluTanh
  | geluErf
  | clip
  | downscale
  | matrixAdd
  | swish
  | matrixMul
  | tanh
  | sigmoid
  | sum
  | adquantize
  | mish
  | gatedSwiglu
  | gatedSwigluAndMul
  deriving DecidableEq, Repr

/-- An argument pointer of a node: NULL, the address of data, the address of
a length or of a leading dimension, or the address of the storage order. -/
inductive OpArg where
  | null
  | data (address : Nat)
  | length (value : Int)
  | order (format : Char)
  deriving DecidableEq, Repr

/-- A pointer to data as an argument. -/
def OpArg.ofData : Option Nat → OpArg
  | none => .null
  | some address => .data address

/-- The scale factor of a node: NULL, an address of the caller, or
`dlp_matrix_op_identity_scale`. -/
inductive ScalePointer where
  | null
  | data (address : Nat)
  | identity
  deriving DecidableEq, Repr

/-- A pointer of the caller as a scale factor. -/
def ScalePointer.ofData : Option Nat → ScalePointer
  | none => .null
  | some address => .data address

/-- `dlp_gemm_post_op`; a successor is a slot of the array. -/
structure DlpGemmPostOp where
  opCode : DlpGemmPostOpCode
  opArgs1 : OpArg
  opArgs2 : OpArg
  opArgs3 : OpArg
  scaleFactor : ScalePointer
  scaleFactorLen : Int
  biasZp : Option Nat
  biasZpLen : Int
  storType : DlpType
  zpStorType : DlpType
  sfStorType : DlpType
  scaleFactorDim : ParamDim
  gluD : Option Nat
  gluLdD : Int
  next : Option Nat
  deriving DecidableEq, Repr

/-- The array of nodes. -/
abbrev PostOpList :=
  Nat → DlpGemmPostOp

/-- `dlp_gemm_set_node_params`. -/
def dlpGemmSetNodeParams (opCode : DlpGemmPostOpCode) (op1 op2 op3 : OpArg)
    (scaleFactor : ScalePointer) (scaleFactorLen : Int)
    (biasZp : Option Nat) (biasZpLen : Int)
    (storType zpStorType sfStorType : DlpType)
    (scaleFactorDim : ParamDim) : DlpGemmPostOp where
  opCode := opCode
  opArgs1 := op1
  opArgs2 := op2
  opArgs3 := op3
  scaleFactor := scaleFactor
  scaleFactorLen := scaleFactorLen
  biasZp := biasZp
  biasZpLen := biasZpLen
  storType := storType
  zpStorType := zpStorType
  sfStorType := sfStorType
  scaleFactorDim := scaleFactorDim
  gluD := none
  gluLdD := 0
  next := none

/-- The node that ends a list. -/
def disabledNode : DlpGemmPostOp :=
  dlpGemmSetNodeParams .disable .null .null .null .null 0 none 0 .invalid
    .invalid .invalid .invalid

/-- `dlp_gemm_get_stor_type`. -/
def dlpGemmGetStorType : DlpType → DlpType
  | .f32 => .f32
  | .bf16 => .bf16
  | .f16 => .f16
  | .s8 => .s8
  | .u8 => .u8
  | .s32 => .s32
  | _ => .invalid

/-! ## The checks and the node of one struct -/

/-- Elements are claimed and there is no data. -/
def claimsData (sf : Option DlpSf) : Bool :=
  sf.any fun sf => decide (0 < sf.scaleFactorLen) && sf.scaleFactor.isNone

/-- Zero points are claimed and there is no data. -/
def claimsZeroPoint (zp : Option DlpZp) : Bool :=
  zp.any fun zp => decide (0 < zp.zeroPointLen) && zp.zeroPoint.isNone

/-- A scale factor whose length is neither one nor `n`. -/
def oddScaleLen (n : Int) (sf : Option DlpSf) : Bool :=
  sf.any fun sf =>
    decide (sf.scaleFactorLen ≠ 1) && decide (sf.scaleFactorLen ≠ n)

/-- A zero point whose length is neither one nor `n`. -/
def oddZeroPointLen (n : Int) (zp : Option DlpZp) : Bool :=
  zp.any fun zp =>
    decide (zp.zeroPointLen ≠ 1) && decide (zp.zeroPointLen ≠ n)

/-- The label of a scale factor that is inferred from its length. -/
def inferredDim (sf : DlpSf) : ParamDim :=
  if sf.scaleFactorLen = 1 then .perTensor else .perChannel

/-- The pointer of an optional scale factor. -/
def scalePointerOf (sf : Option DlpSf) : ScalePointer :=
  ScalePointer.ofData (sf.bind DlpSf.scaleFactor)

/-- The length of an optional scale factor. -/
def scaleLenOf (sf : Option DlpSf) : Int :=
  (sf.map DlpSf.scaleFactorLen).getD 0

/-- The op code and the storage type of an element-wise algorithm. -/
def eltwiseDispatch (algo : DlpEltwiseAlgo) :
    Except DlpClscErr (DlpGemmPostOpCode × DlpType) :=
  match algo.algoType with
  | .relu => .ok (.relu, .invalid)
  | .prelu =>
      if algo.alpha.isNone then .error .nullPointer
      else .ok (.reluScale, dlpGemmGetStorType algo.storType)
  | .geluTanh => .ok (.geluTanh, .invalid)
  | .geluErf => .ok (.geluErf, .invalid)
  | .clip =>
      if algo.alpha.isNone || algo.beta.isNone then .error .nullPointer
      else .ok (.clip, dlpGemmGetStorType algo.storType)
  | .swish =>
      if algo.alpha.isNone then .error .nullPointer
      else .ok (.swish, dlpGemmGetStorType algo.storType)
  | .tanh => .ok (.tanh, .invalid)
  | .sigmoid => .ok (.sigmoid, .invalid)
  | .mish => .ok (.mish, .invalid)
  | .other _ => .ok (.disable, .invalid)

/-- The `ELTWISE` case. -/
def eltwiseNode (n : Int) (op : DlpPostOpEltwise) :
    Except DlpClscErr DlpGemmPostOp := do
  let (code, storType) ← eltwiseDispatch op.algo
  runRules [⟨oddScaleLen n op.sf, .unexpectedVectorDim⟩]
  .ok (dlpGemmSetNodeParams code .null (.ofData op.algo.alpha)
    (.ofData op.algo.beta) (scalePointerOf op.sf) (scaleLenOf op.sf) none 0
    storType .invalid .invalid
    ((op.sf.map inferredDim).getD .invalid))

/-- The `BIAS` case. -/
def biasNode (metaArg : OpArg) (n : Int) (op : DlpPostOpBias) :
    Except DlpClscErr DlpGemmPostOp := do
  runRules
    [⟨op.bias.isNone, .nullPointer⟩,
      ⟨decide (op.biasLen ≠ 1) && decide (op.biasLen ≠ n),
        .unexpectedVectorDim⟩,
      ⟨claimsData op.sf, .nullPointer⟩,
      ⟨oddScaleLen n op.sf, .unexpectedVectorDim⟩,
      ⟨claimsZeroPoint op.zp, .nullPointer⟩,
      ⟨oddZeroPointLen n op.zp, .unexpectedVectorDim⟩]
  .ok (dlpGemmSetNodeParams .bias (.ofData op.bias) metaArg
    (if 0 < op.biasLen then .length op.biasLen else .null)
    (scalePointerOf op.sf) (scaleLenOf op.sf)
    (op.zp.bind DlpZp.zeroPoint)
    ((op.zp.map DlpZp.zeroPointLen).getD 0)
    (dlpGemmGetStorType op.storType)
    ((op.zp.map fun zp => dlpGemmGetStorType zp.zeroPointType).getD .invalid)
    ((op.sf.map fun sf =>
      dlpGemmGetStorType sf.scaleFactorType).getD .invalid)
    ((op.sf.map inferredDim).getD .invalid))

/-- A scale factor whose length does not fit its granularity. -/
def incoherentScale (m n : Int) (sf : DlpSf) : Bool :=
  match sf.scaleFactorDim with
  | .perTensor => decide (sf.scaleFactorLen ≠ 1)
  | .perToken => decide (sf.scaleFactorLen ≠ m)
  | .perChannel => decide (sf.scaleFactorLen ≠ n)
  | _ => true

/-- The `SCALE` case. -/
def scaleNode (metaArg : OpArg) (m n : Int) (op : DlpScale) :
    Except DlpClscErr DlpGemmPostOp := do
  runRules
    [⟨claimsData op.sf, .nullPointer⟩,
      ⟨claimsZeroPoint op.zp, .nullPointer⟩,
      ⟨op.sf.any (incoherentScale m n), .unexpectedVectorDim⟩,
      ⟨op.zp.any fun zp =>
          decide (zp.zeroPointLen ≠ 1) && decide (zp.zeroPointLen < n),
        .unexpectedVectorDim⟩]
  .ok (dlpGemmSetNodeParams .downscale
    (.ofData (op.zp.bind DlpZp.zeroPoint)) metaArg
    (.length ((op.zp.map DlpZp.zeroPointLen).getD 0))
    (scalePointerOf op.sf) (scaleLenOf op.sf) none 0 .invalid
    ((op.zp.map fun zp => dlpGemmGetStorType zp.zeroPointType).getD .invalid)
    ((op.sf.map fun sf =>
      dlpGemmGetStorType sf.scaleFactorType).getD .invalid)
    ((op.sf.map DlpSf.scaleFactorDim).getD .invalid))

/-- The `MATRIX_ADD` and `MATRIX_MUL` cases. -/
def matrixNode (code : DlpGemmPostOpCode) (metaArg : OpArg) (n : Int)
    (op : DlpPostOpMatrix) : Except DlpClscErr DlpGemmPostOp := do
  runRules
    [⟨op.matrix.isNone || decide (op.ldm ≤ 0), .nullPointer⟩,
      ⟨claimsData op.sf, .nullPointer⟩,
      ⟨oddScaleLen n op.sf, .unexpectedVectorDim⟩]
  .ok (dlpGemmSetNodeParams code (.ofData op.matrix) metaArg
    (.length op.ldm)
    ((op.sf.map fun sf => ScalePointer.ofData sf.scaleFactor).getD .identity)
    ((op.sf.map DlpSf.scaleFactorLen).getD 1) none 0
    (dlpGemmGetStorType op.storType) .invalid
    ((op.sf.map fun sf => dlpGemmGetStorType sf.scaleFactorType).getD .f32)
    ((op.sf.map inferredDim).getD .perTensor))

/-! ## The sequence -/

/-- The counters `e_i`, `s_i`, `b_i`, `m_i` and `mul_i`. -/
structure Counters where
  eI : Nat
  sI : Nat
  bI : Nat
  mI : Nat
  mulI : Nat
  deriving DecidableEq, Repr

/-- The struct of an array of one kind. -/
def fetch {Op : Type} (ops : Option (Nat → Op)) (index : Nat) :
    Except DlpClscErr Op :=
  match ops with
  | none => .error .nullPointer
  | some ops => .ok (ops index)

/-- The node of one element of the sequence, with the counters after it. -/
def dispatch (metadata : PostOpMetadata) (metaArg : OpArg) (m n : Int)
    (counters : Counters) :
    DlpPostOpType → Except DlpClscErr (DlpGemmPostOp × Counters)
  | .eltwise => do
      let op ← fetch metadata.eltwise counters.eI
      let node ← eltwiseNode n op
      .ok (node, { counters with eI := counters.eI + 1 })
  | .bias => do
      let op ← fetch metadata.bias counters.bI
      let node ← biasNode metaArg n op
      .ok (node, { counters with bI := counters.bI + 1 })
  | .scale => do
      let op ← fetch metadata.scale counters.sI
      let node ← scaleNode metaArg m n op
      .ok (node, { counters with sI := counters.sI + 1 })
  | .matrixAdd => do
      let op ← fetch metadata.matrixAdd counters.mI
      let node ← matrixNode .matrixAdd metaArg n op
      .ok (node, { counters with mI := counters.mI + 1 })
  | .matrixMul => do
      let op ← fetch metadata.matrixMul counters.mulI
      let node ← matrixNode .matrixMul metaArg n op
      .ok (node, { counters with mulI := counters.mulI + 1 })
  | .other _ => .error .notSupported

/-- The loop over the sequence, with `rest` elements to go from `i` on. -/
def translateLoop (metadata : PostOpMetadata)
    (seqVector : Nat → DlpPostOpType) (metaArg : OpArg) (m n : Int) :
    Nat → Nat → Counters → PostOpList → Except DlpClscErr PostOpList
  | 0, _, _, list => .ok list
  | rest + 1, i, counters, list => do
      let (node, counters) ← dispatch metadata metaArg m n counters
        (seqVector i)
      let node := if (i : Int) < metadata.seqLength - 1 then
        { node with next := some (i + 1) } else node
      translateLoop metadata seqVector metaArg m n rest (i + 1) counters
        (Function.update list i node)

/-- `AOCL_DLP_MAX_POST_OPS`. -/
def aoclDlpMaxPostOps : Int :=
  8

/-- `dlp_gemm_translate_to_post_ops_list`. -/
def dlpGemmTranslateToPostOpsList (metadata : Option PostOpMetadata)
    (list : PostOpList) (metaArg : OpArg) (m n : Int) :
    Except DlpClscErr PostOpList :=
  match metadata with
  | none => .ok (Function.update list 0 disabledNode)
  | some metadata =>
      if metadata.seqLength ≤ 0 then
        .ok (Function.update list 0 disabledNode)
      else if aoclDlpMaxPostOps < metadata.seqLength then
        .error .unexpectedVectorDim
      else
        match metadata.seqVector with
        | none => .error .nullPointer
        | some seqVector =>
            translateLoop metadata seqVector metaArg m n
              metadata.seqLength.toNat 0 ⟨0, 0, 0, 0, 0⟩ list

/-! ## The gated linear unit -/

/-- The caller stores its output by columns. -/
def isColMajor : OpArg → Bool
  | .order format => format == 'c' || format == 'C'
  | _ => false

/-- The op code of a unit. -/
def gluCode : DlpGluAlgoType → Except DlpClscErr DlpGemmPostOpCode
  | .gatedSwiglu => .ok .gatedSwiglu
  | .gatedSwigluAndMul => .ok .gatedSwigluAndMul
  | .other _ => .error .notSupported

/-- The output of a unit, recorded in a node. -/
def recordOutput (glu : DlpTermOpGlu) (node : DlpGemmPostOp) :
    DlpGemmPostOp :=
  { node with gluD := glu.d, gluLdD := unsignedWord 64 glu.ldD }

/-- The writes of a unit that passed its checks. -/
def appendGlu (glu : DlpTermOpGlu) (code : DlpGemmPostOpCode)
    (list : PostOpList) (slot start : Nat) (metaArg : OpArg) : PostOpList :=
  let list := Function.update list slot
    (dlpGemmSetNodeParams code (.ofData glu.alpha) metaArg
      (.ofData glu.beta) .null 0 none 0
      (dlpGemmGetStorType glu.storType) .invalid .invalid .invalid)
  let list := if start ≠ slot then
    Function.update list (slot - 1)
      { list (slot - 1) with next := some slot }
    else list
  let list := Function.update list start (recordOutput glu (list start))
  Function.update list slot (recordOutput glu (list slot))

/-- `dlp_gemm_translate_glu_term_op`; `start` is the head of the list and
`slot` the place of the appended node. -/
def dlpGemmTranslateGluTermOp (metadata : Option PostOpMetadata)
    (list : PostOpList) (slot start : Nat) (metaArg : OpArg) (m n : Int) :
    Except DlpClscErr PostOpList :=
  let list := Function.update list start
    { list start with gluD := none, gluLdD := 0 }
  match metadata.bind PostOpMetadata.glu with
  | none => .ok (Function.update list slot disabledNode)
  | some glu => do
      runRules
        [⟨glu.d.isNone, .nullPointer⟩,
          ⟨decide (n.tmod 2 ≠ 0), .invalidMatrixDimension⟩,
          ⟨decide (glu.ldD < if isColMajor metaArg then m else n.tdiv 2),
            .invalidLeadingDimension⟩]
      let code ← gluCode glu.algoType
      .ok (appendGlu glu code list slot start metaArg)

/-! ## What a node carries -/

/-- The length and the label of a scale factor fit: one element, one for each
column, or one for each row where that is allowed. -/
def ScaleFits (m n : Int) (perRow : Bool) (sf : Option DlpSf)
    (node : DlpGemmPostOp) : Prop :=
  ∀ given, sf = some given →
    given.scaleFactorLen = 1 ∧ node.scaleFactorDim = .perTensor ∨
      given.scaleFactorLen = n ∧ node.scaleFactorDim = .perChannel ∨
      perRow = true ∧ given.scaleFactorLen = m ∧
        node.scaleFactorDim = .perToken

/-- The op code of an element-wise algorithm. -/
def eltwiseCode : DlpEltAlgoType → DlpGemmPostOpCode
  | .relu => .relu
  | .prelu => .reluScale
  | .geluTanh => .geluTanh
  | .geluErf => .geluErf
  | .clip => .clip
  | .swish => .swish
  | .tanh => .tanh
  | .sigmoid => .sigmoid
  | .mish => .mish
  | .other _ => .disable

/-- The algorithms that read stored parameters. -/
def readsParameters : DlpEltAlgoType → Bool
  | .prelu | .clip | .swish => true
  | _ => false

/-- A node of an element-wise operation. -/
structure CarriesEltwise (m n : Int) (op : DlpPostOpEltwise)
    (node : DlpGemmPostOp) : Prop where
  code : node.opCode = eltwiseCode op.algo.algoType
  alpha : node.opArgs2 = .ofData op.algo.alpha
  beta : node.opArgs3 = .ofData op.algo.beta
  storType : readsParameters op.algo.algoType = true →
    node.storType = dlpGemmGetStorType op.algo.storType
  scaleFactor : node.scaleFactor = scalePointerOf op.sf
  scaleLen : node.scaleFactorLen = scaleLenOf op.sf
  fits : ScaleFits m n false op.sf node

/-- A node of a bias. -/
structure CarriesBias (metaArg : OpArg) (m n : Int) (op : DlpPostOpBias)
    (node : DlpGemmPostOp) : Prop where
  code : node.opCode = .bias
  bias : node.opArgs1 = .ofData op.bias
  order : node.opArgs2 = metaArg
  len : 0 < op.biasLen → node.opArgs3 = .length op.biasLen
  storType : node.storType = dlpGemmGetStorType op.storType
  scaleFactor : node.scaleFactor = scalePointerOf op.sf
  scaleLen : node.scaleFactorLen = scaleLenOf op.sf
  scaleType : ∀ sf, op.sf = some sf →
    node.sfStorType = dlpGemmGetStorType sf.scaleFactorType
  zeroPoint : ∀ zp, op.zp = some zp →
    node.biasZp = zp.zeroPoint ∧ node.biasZpLen = zp.zeroPointLen ∧
      node.zpStorType = dlpGemmGetStorType zp.zeroPointType
  fits : ScaleFits m n false op.sf node

/-- A node of a downscale. -/
structure CarriesScale (metaArg : OpArg) (m n : Int) (op : DlpScale)
    (node : DlpGemmPostOp) : Prop where
  code : node.opCode = .downscale
  order : node.opArgs2 = metaArg
  scaleFactor : node.scaleFactor = scalePointerOf op.sf
  scaleLen : node.scaleFactorLen = scaleLenOf op.sf
  scaleType : ∀ sf, op.sf = some sf →
    node.sfStorType = dlpGemmGetStorType sf.scaleFactorType
  zeroPoint : ∀ zp, op.zp = some zp →
    node.opArgs1 = .ofData zp.zeroPoint ∧
      node.opArgs3 = .length zp.zeroPointLen ∧
      node.zpStorType = dlpGemmGetStorType zp.zeroPointType
  fits : ScaleFits m n true op.sf node

/-- A node of a matrix operand; without a scale factor it carries the
identity. -/
structure CarriesMatrix (code : DlpGemmPostOpCode) (metaArg : OpArg)
    (m n : Int) (op : DlpPostOpMatrix) (node : DlpGemmPostOp) : Prop where
  code : node.opCode = code
  matrix : node.opArgs1 = .ofData op.matrix
  order : node.opArgs2 = metaArg
  ldm : node.opArgs3 = .length op.ldm
  storType : node.storType = dlpGemmGetStorType op.storType
  scale : ∀ sf, op.sf = some sf →
    node.scaleFactor = .ofData sf.scaleFactor ∧
      node.scaleFactorLen = sf.scaleFactorLen ∧
      node.sfStorType = dlpGemmGetStorType sf.scaleFactorType
  identity : op.sf = none →
    node.scaleFactor = .identity ∧ node.scaleFactorLen = 1 ∧
      node.sfStorType = .f32 ∧ node.scaleFactorDim = .perTensor
  fits : ScaleFits m n false op.sf node

/-- The node carries the struct of its kind at the given index. -/
def Carries (metadata : PostOpMetadata) (metaArg : OpArg) (m n : Int)
    (kind : DlpPostOpType) (index : Nat) (node : DlpGemmPostOp) : Prop :=
  match kind with
  | .eltwise => ∃ ops, metadata.eltwise = some ops ∧
      CarriesEltwise m n (ops index) node
  | .bias => ∃ ops, metadata.bias = some ops ∧
      CarriesBias metaArg m n (ops index) node
  | .scale => ∃ ops, metadata.scale = some ops ∧
      CarriesScale metaArg m n (ops index) node
  | .matrixAdd => ∃ ops, metadata.matrixAdd = some ops ∧
      CarriesMatrix .matrixAdd metaArg m n (ops index) node
  | .matrixMul => ∃ ops, metadata.matrixMul = some ops ∧
      CarriesMatrix .matrixMul metaArg m n (ops index) node
  | .other _ => False

theorem fits_of_inferred {m n : Int} {sf : Option DlpSf}
    (even : oddScaleLen n sf = false) {node : DlpGemmPostOp}
    (inferred : ∀ given, sf = some given →
      node.scaleFactorDim = inferredDim given) :
    ScaleFits m n false sf node := by
  rintro given rfl
  rw [inferred given rfl]
  unfold oddScaleLen at even
  rw [Option.any_some, Bool.and_eq_false_iff, decide_eq_false_iff_not,
    decide_eq_false_iff_not, not_not, not_not] at even
  unfold inferredDim
  by_cases single : given.scaleFactorLen = 1
  · exact Or.inl ⟨single, if_pos single⟩
  · exact Or.inr (Or.inl ⟨even.resolve_left single, if_neg single⟩)

theorem eltwiseDispatch_ok {algo : DlpEltwiseAlgo}
    {code : DlpGemmPostOpCode} {storType : DlpType}
    (dispatched : eltwiseDispatch algo = .ok (code, storType)) :
    code = eltwiseCode algo.algoType ∧
      (readsParameters algo.algoType = true →
        storType = dlpGemmGetStorType algo.storType) := by
  unfold eltwiseDispatch at dispatched
  split at dispatched
  case h_2 kind | h_5 kind | h_6 kind =>
    rw [kind]
    split at dispatched
    · cases dispatched
    · cases dispatched
      exact ⟨rfl, fun _ => rfl⟩
  all_goals
    next kind =>
      rw [kind]
      cases dispatched
      exact ⟨rfl, fun reads => by cases reads⟩

theorem eltwiseNode_carries {m n : Int} {op : DlpPostOpEltwise}
    {node : DlpGemmPostOp} (built : eltwiseNode n op = .ok node) :
    CarriesEltwise m n op node := by
  rcases bind_ok built with ⟨⟨code, storType⟩, dispatched, built⟩
  rcases bind_ok built with ⟨_, accepted, built⟩
  rcases eltwiseDispatch_ok dispatched with ⟨rfl, stored⟩
  have rules := (runRules_ok_iff _).mp accepted
  simp only [List.forall_mem_cons] at rules
  cases built
  exact
    { code := rfl
      alpha := rfl
      beta := rfl
      storType := stored
      scaleFactor := rfl
      scaleLen := rfl
      fits := fits_of_inferred rules.1 fun given present => by
        rw [present]
        rfl }

theorem biasNode_carries {metaArg : OpArg} {m n : Int} {op : DlpPostOpBias}
    {node : DlpGemmPostOp} (built : biasNode metaArg n op = .ok node) :
    CarriesBias metaArg m n op node := by
  rcases bind_ok built with ⟨_, accepted, built⟩
  have rules := (runRules_ok_iff _).mp accepted
  simp only [List.forall_mem_cons] at rules
  cases built
  exact
    { code := rfl
      bias := rfl
      order := rfl
      len := fun positive => if_pos positive
      storType := rfl
      scaleFactor := rfl
      scaleLen := rfl
      scaleType := fun sf present => by
        rw [present]
        rfl
      zeroPoint := fun zp present => by
        rw [present]
        exact ⟨rfl, rfl, rfl⟩
      fits := fits_of_inferred rules.2.2.2.1 fun given present => by
        rw [present]
        rfl }

/-- A coherent scale factor has the length of its own label. -/
theorem fits_of_coherent {m n : Int} {sf : DlpSf}
    (coherent : incoherentScale m n sf = false) {node : DlpGemmPostOp}
    (stated : node.scaleFactorDim = sf.scaleFactorDim) :
    ScaleFits m n true (some sf) node := by
  rintro given present
  cases present
  rw [stated]
  unfold incoherentScale at coherent
  split at coherent
  case h_1 label =>
    rw [decide_eq_false_iff_not, not_not] at coherent
    exact Or.inl ⟨coherent, label⟩
  case h_2 label =>
    rw [decide_eq_false_iff_not, not_not] at coherent
    exact Or.inr (Or.inr ⟨rfl, coherent, label⟩)
  case h_3 label =>
    rw [decide_eq_false_iff_not, not_not] at coherent
    exact Or.inr (Or.inl ⟨coherent, label⟩)
  case h_4 => cases coherent

theorem scaleNode_carries {metaArg : OpArg} {m n : Int} {op : DlpScale}
    {node : DlpGemmPostOp} (built : scaleNode metaArg m n op = .ok node) :
    CarriesScale metaArg m n op node := by
  rcases bind_ok built with ⟨_, accepted, built⟩
  have rules := (runRules_ok_iff _).mp accepted
  simp only [List.forall_mem_cons] at rules
  cases built
  exact
    { code := rfl
      order := rfl
      scaleFactor := rfl
      scaleLen := rfl
      scaleType := fun sf present => by
        rw [present]
        rfl
      zeroPoint := fun zp present => by
        rw [present]
        exact ⟨rfl, rfl, rfl⟩
      fits := by
        intro given present
        have coherent := rules.2.2.1
        rw [present, Option.any_some] at coherent
        have stated : ((op.sf.map DlpSf.scaleFactorDim).getD
            ParamDim.invalid) = given.scaleFactorDim := by
          rw [present]
          rfl
        exact fits_of_coherent coherent stated given rfl }

theorem matrixNode_carries {code : DlpGemmPostOpCode} {metaArg : OpArg}
    {m n : Int} {op : DlpPostOpMatrix} {node : DlpGemmPostOp}
    (built : matrixNode code metaArg n op = .ok node) :
    CarriesMatrix code metaArg m n op node := by
  rcases bind_ok built with ⟨_, accepted, built⟩
  have rules := (runRules_ok_iff _).mp accepted
  simp only [List.forall_mem_cons] at rules
  cases built
  exact
    { code := rfl
      matrix := rfl
      order := rfl
      ldm := rfl
      storType := rfl
      scale := fun sf present => by
        rw [present]
        exact ⟨rfl, rfl, rfl⟩
      identity := fun absent => by
        rw [absent]
        exact ⟨rfl, rfl, rfl, rfl⟩
      fits := fits_of_inferred rules.2.2.1 fun given present => by
        rw [present]
        rfl }

/-! ## The loop -/

/-- How many elements of a kind precede an element of the sequence. -/
def occurrence (seqVector : Nat → DlpPostOpType) (kind : DlpPostOpType)
    (i : Nat) : Nat :=
  Nat.count (fun j => seqVector j = kind) i

theorem occurrence_succ (seqVector : Nat → DlpPostOpType)
    (kind : DlpPostOpType) (i : Nat) :
    occurrence seqVector kind (i + 1) =
      occurrence seqVector kind i + if seqVector i = kind then 1 else 0 :=
  Nat.count_succ _ i

/-- The counters in front of an element. -/
structure Counters.Count (counters : Counters)
    (seqVector : Nat → DlpPostOpType) (i : Nat) : Prop where
  eI : counters.eI = occurrence seqVector .eltwise i
  sI : counters.sI = occurrence seqVector .scale i
  bI : counters.bI = occurrence seqVector .bias i
  mI : counters.mI = occurrence seqVector .matrixAdd i
  mulI : counters.mulI = occurrence seqVector .matrixMul i

theorem fetch_ok {Op : Type} {ops : Option (Nat → Op)} {index : Nat} {op : Op}
    (fetched : fetch ops index = .ok op) :
    ∃ all, ops = some all ∧ op = all index := by
  cases ops with
  | none => cases fetched
  | some all =>
      cases fetched
      exact ⟨all, rfl, rfl⟩

/-- A case of the dispatcher builds its node from the struct at its
counter. -/
theorem built_of_case {Op : Type} {ops : Option (Nat → Op)} {index : Nat}
    {build : Op → Except DlpClscErr DlpGemmPostOp} {bumped later : Counters}
    {node : DlpGemmPostOp}
    (dispatched : (do
      let op ← fetch ops index
      let node ← build op
      .ok (node, bumped)) = Except.ok (node, later)) :
    ∃ all, ops = some all ∧ build (all index) = .ok node ∧ bumped = later := by
  rcases bind_ok dispatched with ⟨op, fetched, tail⟩
  rcases bind_ok tail with ⟨_, built, done⟩
  rcases fetch_ok fetched with ⟨all, given, rfl⟩
  cases done
  exact ⟨all, given, built, rfl⟩

theorem eltwiseNode_next {n : Int} {op : DlpPostOpEltwise}
    {node : DlpGemmPostOp} (built : eltwiseNode n op = .ok node) :
    node.next = none := by
  rcases bind_ok built with ⟨_, -, tail⟩
  rcases bind_ok tail with ⟨_, -, done⟩
  cases done
  rfl

/-- A node behind one check has no successor yet. -/
theorem next_of_checked {rules : List Rule} {node : DlpGemmPostOp}
    {written : DlpGemmPostOp} (unlinked : written.next = none)
    (built : (do
      runRules rules
      .ok written) = Except.ok node) : node.next = none := by
  rcases bind_ok built with ⟨_, -, done⟩
  cases done
  exact unlinked

/-- One element: the node carries the struct that its kind is at, and the
counters move on. -/
theorem dispatch_carries {metadata : PostOpMetadata} {metaArg : OpArg}
    {m n : Int} {counters later : Counters}
    {seqVector : Nat → DlpPostOpType} {i : Nat} {node : DlpGemmPostOp}
    (count : counters.Count seqVector i)
    (dispatched : dispatch metadata metaArg m n counters (seqVector i) =
      .ok (node, later)) :
    Carries metadata metaArg m n (seqVector i)
        (occurrence seqVector (seqVector i) i) node ∧
      node.next = none ∧ later.Count seqVector (i + 1) := by
  rcases count with ⟨eI, sI, bI, mI, mulI⟩
  cases kind : seqVector i with
  | eltwise =>
      rw [kind] at dispatched
      rcases built_of_case dispatched with ⟨all, given, built, rfl⟩
      rw [eI] at built
      refine ⟨⟨all, given, eltwiseNode_carries built⟩,
        eltwiseNode_next built, ?_⟩
      constructor <;> simp [occurrence_succ, kind, eI, sI, bI, mI, mulI]
  | bias =>
      rw [kind] at dispatched
      rcases built_of_case dispatched with ⟨all, given, built, rfl⟩
      rw [bI] at built
      refine ⟨⟨all, given, biasNode_carries built⟩,
        next_of_checked rfl built, ?_⟩
      constructor <;> simp [occurrence_succ, kind, eI, sI, bI, mI, mulI]
  | scale =>
      rw [kind] at dispatched
      rcases built_of_case dispatched with ⟨all, given, built, rfl⟩
      rw [sI] at built
      refine ⟨⟨all, given, scaleNode_carries built⟩,
        next_of_checked rfl built, ?_⟩
      constructor <;> simp [occurrence_succ, kind, eI, sI, bI, mI, mulI]
  | matrixAdd =>
      rw [kind] at dispatched
      rcases built_of_case dispatched with ⟨all, given, built, rfl⟩
      rw [mI] at built
      refine ⟨⟨all, given, matrixNode_carries built⟩,
        next_of_checked rfl built, ?_⟩
      constructor <;> simp [occurrence_succ, kind, eI, sI, bI, mI, mulI]
  | matrixMul =>
      rw [kind] at dispatched
      rcases built_of_case dispatched with ⟨all, given, built, rfl⟩
      rw [mulI] at built
      refine ⟨⟨all, given, matrixNode_carries built⟩,
        next_of_checked rfl built, ?_⟩
      constructor <;> simp [occurrence_succ, kind, eI, sI, bI, mI, mulI]
  | other value =>
      rw [kind] at dispatched
      cases dispatched

/-- What a node carries does not depend on its successor. -/
theorem Carries.relink {metadata : PostOpMetadata} {metaArg : OpArg}
    {m n : Int} {kind : DlpPostOpType} {index : Nat} {node : DlpGemmPostOp}
    (carries : Carries metadata metaArg m n kind index node)
    (next : Option Nat) :
    Carries metadata metaArg m n kind index { node with next := next } := by
  cases kind with
  | eltwise =>
      rcases carries with ⟨ops, given, carries⟩
      exact ⟨ops, given, carries.code, carries.alpha, carries.beta,
        carries.storType, carries.scaleFactor, carries.scaleLen,
        carries.fits⟩
  | bias =>
      rcases carries with ⟨ops, given, carries⟩
      exact ⟨ops, given, carries.code, carries.bias, carries.order,
        carries.len, carries.storType, carries.scaleFactor,
        carries.scaleLen, carries.scaleType, carries.zeroPoint,
        carries.fits⟩
  | scale =>
      rcases carries with ⟨ops, given, carries⟩
      exact ⟨ops, given, carries.code, carries.order, carries.scaleFactor,
        carries.scaleLen, carries.scaleType, carries.zeroPoint,
        carries.fits⟩
  | matrixAdd | matrixMul =>
      rcases carries with ⟨ops, given, carries⟩
      exact ⟨ops, given, carries.code, carries.matrix, carries.order,
        carries.ldm, carries.storType, carries.scale, carries.identity,
        carries.fits⟩
  | other value => exact carries

/-- The slots from `first` to `last` hold the nodes of the sequence. -/
structure Translated (metadata : PostOpMetadata)
    (seqVector : Nat → DlpPostOpType) (metaArg : OpArg) (m n : Int)
    (first last : Nat) (before after : PostOpList) : Prop where
  untouched : ∀ slot, slot < first ∨ last ≤ slot → after slot = before slot
  carries : ∀ slot, first ≤ slot → slot < last →
    Carries metadata metaArg m n (seqVector slot)
      (occurrence seqVector (seqVector slot) slot) (after slot)
  next : ∀ slot, first ≤ slot → slot < last →
    (after slot).next =
      if (slot : Int) < metadata.seqLength - 1 then some (slot + 1) else none

/-- The loop from an element on. -/
theorem translateLoop_translated {metadata : PostOpMetadata}
    {seqVector : Nat → DlpPostOpType} {metaArg : OpArg} {m n : Int}
    {rest i : Nat} {counters : Counters} {before after : PostOpList}
    (count : counters.Count seqVector i)
    (translates : translateLoop metadata seqVector metaArg m n rest i
      counters before = .ok after) :
    Translated metadata seqVector metaArg m n i (i + rest) before after := by
  induction rest generalizing i counters before with
  | zero =>
      cases translates
      refine ⟨fun _ _ => rfl, ?_, ?_⟩
      · intro slot lower upper
        exact absurd upper (not_lt.mpr lower)
      · intro slot lower upper
        exact absurd upper (not_lt.mpr lower)
  | succ rest ih =>
      rcases bind_ok translates with ⟨⟨node, later⟩, dispatched, translates⟩
      rcases dispatch_carries count dispatched with
        ⟨carries, unlinked, moved⟩
      dsimp only at translates
      generalize linked : (if (i : Int) < metadata.seqLength - 1 then
        { node with next := some (i + 1) } else node) = written at translates
      have keeps : Carries metadata metaArg m n (seqVector i)
          (occurrence seqVector (seqVector i) i) written := by
        rw [← linked]
        split_ifs
        · exact carries.relink _
        · exact carries
      have successor : written.next =
          if (i : Int) < metadata.seqLength - 1 then some (i + 1)
          else none := by
        rw [← linked]
        split_ifs
        · rfl
        · exact unlinked
      have done := ih moved translates
      have here : after i = written := by
        rw [done.untouched i (Or.inl (Nat.lt_succ_self i))]
        exact Function.update_self i written before
      refine ⟨?_, ?_, ?_⟩
      · intro slot outside
        have apart : slot ≠ i := by omega
        rw [done.untouched slot (by omega)]
        exact Function.update_of_ne apart written before
      · intro slot lower upper
        rcases Nat.eq_or_lt_of_le lower with rfl | above
        · rw [here]
          exact keeps
        · exact done.carries slot above (by omega)
      · intro slot lower upper
        rcases Nat.eq_or_lt_of_le lower with rfl | above
        · rw [here]
          exact successor
        · exact done.next slot above (by omega)

/-- What a translation of a nonempty sequence wrote. -/
theorem translated_of_ok {metadata : PostOpMetadata} {metaArg : OpArg}
    {m n : Int} {before after : PostOpList}
    (nonempty : 1 ≤ metadata.seqLength)
    (translates : dlpGemmTranslateToPostOpsList (some metadata) before
      metaArg m n = .ok after) :
    metadata.seqLength ≤ aoclDlpMaxPostOps ∧
      ∃ seqVector, metadata.seqVector = some seqVector ∧
        Translated metadata seqVector metaArg m n 0
          metadata.seqLength.toNat before after := by
  unfold dlpGemmTranslateToPostOpsList at translates
  dsimp only at translates
  rw [if_neg (by omega)] at translates
  split at translates
  · cases translates
  · next bounded =>
      refine ⟨not_lt.mp bounded, ?_⟩
      cases given : metadata.seqVector with
      | none =>
          rw [given] at translates
          cases translates
      | some seqVector =>
          rw [given] at translates
          have started : Counters.Count ⟨0, 0, 0, 0, 0⟩ seqVector 0 :=
            ⟨(Nat.count_zero _).symm, (Nat.count_zero _).symm,
              (Nat.count_zero _).symm, (Nat.count_zero _).symm,
              (Nat.count_zero _).symm⟩
          have done := translateLoop_translated started translates
          rw [Nat.zero_add] at done
          exact ⟨seqVector, rfl, done⟩

/-- What an appended gated linear unit does to a list that starts at slot
zero. -/
structure Appended (glu : DlpTermOpGlu) (slot : Nat)
    (before after : PostOpList) : Prop where
  code : (after slot).opCode ≠ .disable
  ended : (after slot).next = none
  output : (after slot).gluD = glu.d
  linked : (after (slot - 1)).next = some slot
  kept : ∀ other, other < slot → (after other).opCode = (before other).opCode
  links : ∀ other, other + 1 < slot →
    (after other).next = (before other).next

/-- A gated linear unit behind a nonempty list. -/
theorem appended_of_ok {metadata : PostOpMetadata} {glu : DlpTermOpGlu}
    (given : metadata.glu = some glu) {slot : Nat} (behind : 0 < slot)
    {metaArg : OpArg} {m n : Int} {before after : PostOpList}
    (appends : dlpGemmTranslateGluTermOp (some metadata) before slot 0
      metaArg m n = .ok after) : Appended glu slot before after := by
  unfold dlpGemmTranslateGluTermOp at appends
  rw [Option.bind_some, given] at appends
  rcases bind_ok appends with ⟨_, -, appends⟩
  rcases bind_ok appends with ⟨code, coded, appends⟩
  have live : code ≠ .disable := by
    cases kind : glu.algoType with
    | gatedSwiglu | gatedSwigluAndMul =>
        rw [kind] at coded
        cases coded
        decide
    | other value =>
        rw [kind] at coded
        cases coded
  have apart : (0 : Nat) ≠ slot := behind.ne
  have previous : slot - 1 ≠ slot := by omega
  have result := (Except.ok.inj appends).symm
  unfold appendGlu recordOutput at result
  dsimp only at result
  rw [if_pos apart] at result
  clear appends coded
  constructor
  case code =>
    rw [result]
    simp [Function.update_apply, apart.symm, previous.symm, live,
      dlpGemmSetNodeParams]
  case ended =>
    rw [result]
    simp [Function.update_apply, apart.symm, previous.symm,
      dlpGemmSetNodeParams]
  case output =>
    rw [result]
    simp [Function.update_apply, apart.symm, previous.symm]
  case linked =>
    rw [result]
    by_cases head : slot - 1 = 0
    · simp [Function.update_apply, head, apart]
    · simp [Function.update_apply, previous, head]
  case kept =>
    intro other below
    rw [result]
    by_cases head : other = 0
    · by_cases last : slot - 1 = 0
      · simp [Function.update_apply, head, last, apart]
      · simp [Function.update_apply, head, apart, Ne.symm last]
    · by_cases last : other = slot - 1
      · subst last
        simp [Function.update_apply, below.ne, head]
      · simp [Function.update_apply, below.ne, head, last]
  case links =>
    intro other below
    rw [result]
    have near : other ≠ slot := by omega
    have inner : other ≠ slot - 1 := by omega
    by_cases head : other = 0
    · subst head
      simp [Function.update_apply, apart, inner]
    · simp [Function.update_apply, near, inner, head]

end AoclDlp.PostOps.Translate
