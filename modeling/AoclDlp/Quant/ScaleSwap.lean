import AoclDlp.Quant.SymQuantCall

/-!
# Scale factors of swapped operands

The scale factors of A lie row by row with one column for each group, those of
B group by group with one column for each output column; a granularity that
collapses the groups leaves a single one.  In column major the frame sees B in
the place of A, so both arrays are transposed element by element and every
granularity is renamed.

The transposition moves elements of two bytes for BF16 and of four bytes for
every other storage type.
-/

namespace AoclDlp.Quant.ScaleSwap

open AoclDlp.Api.GemmCheck
open AoclDlp.Config.LocalContext
open AoclDlp.Foundations.Memory
open AoclDlp.PostOps.Translate
open AoclDlp.Quant.GroupSize
open AoclDlp.Quant.KernelInit
open AoclDlp.Quant.SymQuant
open AoclDlp.Quant.SymQuantCall

variable {Cell : Type}

/-! ## Reading scale factors -/

/-- The bits of an element of a storage type. -/
def storBits : DlpType → Nat
  | .invalid => 0
  | .s4 | .u4 | .f4 => 4
  | .s8 | .u8 => 8
  | .s16 | .u16 | .f16 | .bf16 => 16
  | .s32 | .u32 | .f32 => 32

/-- The bytes of an element of an array of elements of `width` bytes. -/
def elementBytes (width : Nat) (array : Bytes) (index : Nat) : List UInt8 :=
  (List.range width).map fun byte => array (index * width + byte)

/-- The fields of `dlp_gemm_grp_post_op_attr` that address scale factors. -/
structure GrpPostOpAttr where
  aScaleFactor : Option Bytes
  bScaleFactor : Option Bytes
  aGrpMul : Nat
  bGrpMul : Nat
  grpPostOpLda : Nat
  grpPostOpLdb : Nat

/-- The attributes that the frame derives from a group node. -/
def grpPostOpAttr (node : GroupNode) (n k : Nat) : GrpPostOpAttr :=
  let groupSize := normalisedGroupSize node.groupSize.toNat k
  { aScaleFactor := node.aScaleFactor
    bScaleFactor := node.bScaleFactor
    aGrpMul := if node.aScaleFactorDim = .perToken then 0 else 1
    bGrpMul := if node.bScaleFactorDim = .perChannel then 0 else 1
    grpPostOpLda :=
      if node.aScaleFactorDim = .perToken then 1 else numGroups groupSize k
    grpPostOpLdb := n }

/-- Where a kernel reads the scale factor of a row of A and a group. -/
def GrpPostOpAttr.aIndex (attr : GrpPostOpAttr) (i g : Nat) : Nat :=
  i * attr.grpPostOpLda + g * attr.aGrpMul

/-- Where a kernel reads the scale factor of a group and a column of B. -/
def GrpPostOpAttr.bIndex (attr : GrpPostOpAttr) (g j : Nat) : Nat :=
  g * attr.grpPostOpLdb * attr.bGrpMul + j

/-- Where the caller keeps the scale factor of a row of A and a group. -/
def callerAIndex (aOp : DlpQuantOp) (groups i g : Nat) : Nat :=
  if scaleFactorDim (some aOp) = .perToken then i else i * groups + g

/-- Where the caller keeps the scale factor of a group and a column of B. -/
def callerBIndex (bOp : DlpQuantOp) (n g j : Nat) : Nat :=
  if scaleFactorDim (some bOp) = .perChannel then j else g * n + j

/-- The groups of an accepted call. -/
def callGroups (args : GemmArgs) (accepted : AcceptedCall) : Nat :=
  numGroups accepted.node.groupSize.toNat args.k.toNat

/-- The frame of a column-major call reads the caller's scale factors with
the operands in each other's place. -/
structure SwapExact (around : CallSurroundings Cell) (args : GemmArgs)
    (accepted : AcceptedCall) (problem : SymQuantProblem) : Prop where
  aScales : ∀ j g, j < args.n.toNat → g < callGroups args accepted →
    let width := storBits (scaleStorType (some accepted.bOp)) / 8
    let attr := grpPostOpAttr problem.grpPostOp problem.ops.n problem.k
    attr.aScaleFactor.map (fun array =>
        elementBytes width array (attr.aIndex j g)) =
      some (elementBytes width around.bScales
        (callerBIndex accepted.bOp args.n.toNat g j))
  bScales : ∀ i g, i < args.m.toNat → g < callGroups args accepted →
    let width := storBits (scaleStorType (some accepted.aOp)) / 8
    let attr := grpPostOpAttr problem.grpPostOp problem.ops.n problem.k
    attr.bScaleFactor.map (fun array =>
        elementBytes width array (attr.bIndex g i)) =
      some (elementBytes width around.aScales
        (callerAIndex accepted.aOp (callGroups args accepted) i g))
  fullWidth :
    8 * sfElemSize accepted.node =
        storBits (scaleStorType (some accepted.aOp)) ∧
      8 * sfElemSize accepted.node =
        storBits (scaleStorType (some accepted.bOp))
  dims :
    scaleFactorDim (some problem.groupOps.aPostQuantOp) =
        problem.grpPostOp.aScaleFactorDim ∧
      scaleFactorDim (some problem.groupOps.bPostQuantOp) =
        problem.grpPostOp.bScaleFactorDim

/-! ## The transposition -/

theorem mem_transposeMoves_iff {rows cols : Nat} {move : Nat × Nat} :
    move ∈ transposeMoves rows cols ↔
      ∃ r, r < rows ∧ ∃ c, c < cols ∧
        (c * rows + r, r * cols + c) = move := by
  simp only [transposeMoves, List.mem_flatMap, List.mem_map, List.mem_range]

/-- Every destination of the transposition has one source. -/
theorem transposeMoves_functional {rows cols r c : Nat} {move : Nat × Nat}
    (row : r < rows) (member : move ∈ transposeMoves rows cols)
    (same : move.1 = c * rows + r) : move.2 = r * cols + c := by
  rcases mem_transposeMoves_iff.mp member with ⟨r', row', c', -, rfl⟩
  dsimp only at same ⊢
  have columns : c' = c := by
    have left := Nat.div_eq_of_lt row'
    have right := Nat.div_eq_of_lt row
    have quotients := congrArg (fun index => index / rows) same
    simpa [Nat.add_comm, Nat.add_mul_div_right _ _ (Nat.zero_lt_of_lt row),
      left, right] using quotients
  subst columns
  rw [Nat.add_left_cancel same]

/-- An element of the transposed array is the transposed element. -/
theorem transposed_element (dst src : Bytes) {rows cols r c : Nat}
    (size : Nat) (row : r < rows) (column : c < cols) :
    elementBytes size (dlpTransposeScale2d dst src rows cols size)
        (c * rows + r) =
      elementBytes size src (r * cols + c) := by
  apply List.map_congr_left
  intro byte inside
  have inside := List.mem_range.mp inside
  rcases element_of_byte (Nat.zero_lt_of_lt inside) (c * rows + r) inside
    with ⟨element, offset⟩
  have member : (((c * rows + r) * size + byte) / size, r * cols + c) ∈
      transposeMoves rows cols := by
    rw [element]
    exact mem_transposeMoves_iff.mpr ⟨r, row, c, column, rfl⟩
  have hit := copyElems_hit (Nat.zero_lt_of_lt inside) _ src dst member
    fun move moved same =>
      transposeMoves_functional row moved (same.trans element)
  rw [offset] at hit
  exact hit

/-! ## What an accepted call provides -/

/-- What the checks of a call establish about its scale factors. -/
structure ScaledCall (around : CallSurroundings Cell) (args : GemmArgs)
    (accepted : AcceptedCall) : Prop where
  sized : args.Sized
  aDim : scaleFactorDim (some accepted.aOp) = .perToken ∨
    scaleFactorDim (some accepted.aOp) = .perGroup
  bDim : scaleFactorDim (some accepted.bOp) = .perChannel ∨
    scaleFactorDim (some accepted.bOp) = .perGroup
  aScales : accepted.node.aScaleFactor = some around.aScales
  bScales : accepted.node.bScaleFactor = some around.bScales
  nodeADim : accepted.node.aScaleFactorDim =
    scaleFactorDim (some accepted.aOp)
  nodeBDim : accepted.node.bScaleFactorDim =
    scaleFactorDim (some accepted.bOp)
  storType : accepted.node.sfStorType =
    dlpGemmGetStorType (scaleStorType (some accepted.aOp))
  sameType : scaleStorType (some accepted.aOp) =
    scaleStorType (some accepted.bOp)
  legal : LegalGroup accepted.node.groupSize.toNat args.k.toNat

/-- The granularities that pass the check, with the scale factors that are
there. -/
theorem requiredQuantOps_dims {metadata : QuantMetadata}
    {stated : QuantMetadata} {aOp bOp : DlpQuantOp}
    (requires : requiredQuantOps (some metadata) = .ok (stated, aOp, bOp)) :
    ∃ aScl bScl, aOp.dequantScaleFactors = some aScl ∧
      bOp.dequantScaleFactors = some bScl ∧
      (aScl.outerDim = .perToken ∨ aScl.outerDim = .perGroup) ∧
      (bScl.outerDim = .perChannel ∨ bScl.outerDim = .perGroup) := by
  unfold requiredQuantOps at requires
  dsimp only at requires
  split at requires
  next =>
    split at requires
    next aScl bScl hasA hasB =>
      split at requires
      next => cases requires
      next legal =>
        cases requires
        refine ⟨aScl, bScl, hasA, hasB, ?_⟩
        simp only [refusesDims, Bool.or_eq_true, decide_eq_true_eq,
          not_or, not_and_or, not_not] at legal
        exact legal
    next => cases requires
  next => cases requires

/-- Scale factors of a positive length have data behind their pointer. -/
theorem scalePointer_some {quantOp : DlpQuantOp} {scl : DlpQparam}
    {needed : Int} (scales : Bytes)
    (present : quantOp.dequantScaleFactors = some scl)
    (hasData : missingData (scaleFactorsOf (some quantOp)) = false)
    (long : tooShort (scaleFactorsOf (some quantOp)) needed = false)
    (positive : 0 < needed) :
    scalePointer (some quantOp) scales = some scales := by
  have factors : scaleFactorsOf (some quantOp) = some scl := present
  rw [factors] at hasData long
  simp only [missingData, tooShort, Option.any_some, decide_eq_false_iff_not,
    not_lt, Bool.and_eq_false_iff] at hasData long
  have nonNull : scl.dataIsNull = false :=
    hasData.resolve_left (by omega)
  simp [scalePointer, factors, nonNull]

/-- The scale factors that a translation of two operations accepted. -/
structure ScalesAccepted (aOp bOp : DlpQuantOp) (m n k : Int) : Prop where
  aData : missingData (scaleFactorsOf (some aOp)) = false
  bData : missingData (scaleFactorsOf (some bOp)) = false
  aLong : ∃ groups : Int, tooShort (scaleFactorsOf (some aOp)) (m * groups) =
    false ∧ (groups = 1 ∨ groups = (k + translatedGroupSize (some aOp)
      (some bOp) k - 1) / translatedGroupSize (some aOp) (some bOp) k)
  bLong : ∃ groups : Int, tooShort (scaleFactorsOf (some bOp)) (n * groups) =
    false ∧ (groups = 1 ∨ groups = (k + translatedGroupSize (some aOp)
      (some bOp) k - 1) / translatedGroupSize (some aOp) (some bOp) k)
  types : ∀ aScl bScl, scaleFactorsOf (some aOp) = some aScl →
    scaleFactorsOf (some bOp) = some bScl → aScl.storType = bScl.storType

theorem scalesAccepted_of_ok {aOp bOp : DlpQuantOp} {m n k : Int}
    {groups : DlpGemmGroupPostOp}
    (translates : dlpGemmTranslateToGroupPostopsList (some aOp) (some bOp) m
      n k = .ok groups) :
    ScalesAccepted aOp bOp m n k := by
  unfold dlpGemmTranslateToGroupPostopsList at translates
  rw [if_neg (by simp)] at translates
  rcases bind_ok translates with ⟨_, accepted, -⟩
  have accepts := (runRules_ok_iff _).mp accepted
  simp only [groupPostopsRules, List.forall_mem_cons] at accepts
  rcases accepts with ⟨-, -, -, -, -, -, -, -, aData, aLong, bData, bLong,
    types, -⟩
  refine ⟨aData, bData, ⟨_, aLong, ?_⟩, ⟨_, bLong, ?_⟩, ?_⟩
  · split_ifs
    · exact Or.inl rfl
    · exact Or.inr rfl
  · split_ifs
    · exact Or.inl rfl
    · exact Or.inr rfl
  · intro aScl bScl hasA hasB
    simpa [hasA, hasB] using types

/-- The granularities of the node are those of the operations. -/
theorem dims_of_ok {aOp bOp : DlpQuantOp} {m n k : Int}
    {groups : DlpGemmGroupPostOp}
    (translates : dlpGemmTranslateToGroupPostopsList (some aOp) (some bOp) m
      n k = .ok groups) :
    groups.aScaleFactorDim = scaleFactorDim (some aOp) ∧
      groups.bScaleFactorDim = scaleFactorDim (some bOp) := by
  unfold dlpGemmTranslateToGroupPostopsList at translates
  rw [if_neg (by simp)] at translates
  rcases bind_ok translates with ⟨_, -, built⟩
  cases built
  exact ⟨rfl, rfl⟩

/-- A count of groups that a check multiplies with is positive. -/
theorem groups_pos {aOp bOp : DlpQuantOp} {k groups : Int}
    {node : DlpGemmGroupPostOp} (positive : 0 < k)
    (translated : Translated aOp bOp k node)
    (counts : groups = 1 ∨ groups = (k + translatedGroupSize (some aOp)
      (some bOp) k - 1) / translatedGroupSize (some aOp) (some bOp) k) :
    0 < groups := by
  have size : translatedGroupSize (some aOp) (some bOp) k = node.groupSize :=
    translated.groupSize.symm
  have group := translated.legal.pos
  rw [size] at counts
  rcases counts with rfl | rfl
  · exact Int.one_pos
  · have size_pos : 0 < node.groupSize := by omega
    have one_le : 1 ≤ (k + node.groupSize - 1) / node.groupSize :=
      Int.le_ediv_of_mul_le size_pos (by omega)
    exact one_le

theorem scaledCall_of_accepted {around : CallSurroundings Cell}
    {args : GemmArgs} {metadata : Option SymQuantMetadata}
    {accepted : AcceptedCall}
    (accepts : acceptCall around args metadata = .ok accepted) :
    ScaledCall around args accepted := by
  unfold acceptCall at accepts
  rcases bind_ok accepts with ⟨_, -, accepts⟩
  rcases bind_ok accepts with ⟨_, checks, accepts⟩
  rcases bind_ok accepts with ⟨_, -, accepts⟩
  rcases bind_ok accepts with ⟨⟨stated, aOp, bOp⟩, states, accepts⟩
  rcases bind_ok accepts with ⟨node, translates, accepts⟩
  cases accepts
  have sized := sized_of_check checks
  unfold statedOps at states
  split at states
  next => cases states
  next given =>
    rcases bind_ok states with ⟨⟨_, aOp', bOp'⟩, requires, states⟩
    cases states
    rcases requiredQuantOps_dims requires with
      ⟨aScl, bScl, hasA, hasB, aDim, bDim⟩
    rcases bind_ok translates with ⟨groups, lists, built⟩
    cases built
    have translated := GroupSize.translated_of_ok sized.k_pos lists
    have scales := scalesAccepted_of_ok lists
    rcases scales.aLong with ⟨aCount, aLong, aCounts⟩
    rcases scales.bLong with ⟨bCount, bLong, bCounts⟩
    have factorsA : scaleFactorsOf (some aOp) = some aScl := hasA
    have factorsB : scaleFactorsOf (some bOp) = some bScl := hasB
    have dims := dims_of_ok lists
    constructor
    case sized => exact sized
    case aDim => simpa [scaleFactorDim, factorsA] using aDim
    case bDim => simpa [scaleFactorDim, factorsB] using bDim
    case aScales =>
      exact scalePointer_some _ hasA scales.aData aLong
        (Int.mul_pos sized.m_pos (groups_pos sized.k_pos translated aCounts))
    case bScales =>
      exact scalePointer_some _ hasB scales.bData bLong
        (Int.mul_pos sized.n_pos (groups_pos sized.k_pos translated bCounts))
    case nodeADim => exact dims.1
    case nodeBDim => exact dims.2
    case storType => rfl
    case sameType =>
      have same := scales.types aScl bScl factorsA factorsB
      simp only [scaleStorType, factorsA, factorsB, Option.map_some,
        Option.getD_some, same]
    case legal => exact translated.legal

/-! ## The problem of a column-major call -/

/-- The buffers, the relabelled operations and the shape that a column-major
call hands over. -/
theorem preparedProblem_columnMajor {around : CallSurroundings Cell}
    {args : SymQuantArgs} {metadata : Option SymQuantMetadata}
    {accepted : AcceptedCall} {problem : SymQuantProblem}
    {state final : CallState Cell}
    (column : isColumnMajor args.gemm.order = true)
    (accepts : acceptCall around args.gemm metadata = .ok accepted)
    (prepares : preparedProblem around args metadata state =
      .ok problem final) :
    let k := args.gemm.k.toNat
    let size := sfElemSize accepted.node
    ∃ aFresh bFresh, problem.grpPostOp = swappedNode accepted.node
        (some (dlpTransposeScale2d aFresh around.bScales
          (bNg accepted.node k) args.gemm.n.toNat size))
        (some (dlpTransposeScale2d bFresh around.aScales args.gemm.m.toNat
          (aNg accepted.node k) size)) ∧
      problem.groupOps =
        ⟨relabelled accepted.bOp .perChannel .perToken,
          relabelled accepted.aOp .perToken .perChannel⟩ ∧
      problem.ops.n = args.gemm.m.toNat ∧ problem.k = k := by
  have scaled := scaledCall_of_accepted accepts
  unfold preparedProblem at prepares
  rcases Foundations.Exits.bind_ok prepares with ⟨_, _, first, prepares⟩
  rcases check_ok first with ⟨same, rfl⟩
  cases accepts.symm.trans same
  rcases Foundations.Exits.bind_ok prepares with ⟨node, _, swaps, prepares⟩
  rcases check_ok prepares with ⟨built, -⟩
  rw [frameNode, if_pos column] at swaps
  unfold columnMajorNode at swaps
  rcases Foundations.Exits.bind_ok swaps with ⟨_, _, first, swaps⟩
  rcases Foundations.Exits.bind_ok swaps with ⟨_, _, second, swaps⟩
  rw [scaled.bScales] at first
  rw [scaled.aScales] at second
  rcases transposeInto_ok first with ⟨aFresh, rfl⟩
  rcases transposeInto_ok second with ⟨bFresh, rfl⟩
  cases swaps
  unfold prepareProblem at built
  rcases bind_ok built with ⟨_, -, built⟩
  rcases bind_ok built with ⟨_, -, built⟩
  rcases bind_ok built with ⟨_, -, built⟩
  cases built
  refine ⟨aFresh, bFresh, rfl, ?_, ?_, rfl⟩
  · exact if_pos column
  · change (symQuantOperands args.gemm).n = args.gemm.m.toNat
    unfold symQuantOperands
    rw [if_pos column]
    rfl

theorem relabelled_dim {quantOp : DlpQuantOp} {collapses becomes : ParamDim}
    (valid : scaleFactorDim (some quantOp) ≠ .invalid) :
    scaleFactorDim (some (relabelled quantOp collapses becomes)) =
      swappedDim collapses becomes (scaleFactorDim (some quantOp)) := by
  cases factors : quantOp.dequantScaleFactors with
  | none =>
      exact absurd (by simp [scaleFactorDim, scaleFactorsOf, factors]) valid
  | some scl =>
      simp [scaleFactorDim, scaleFactorsOf, relabelled, factors]

theorem normalised_of_legal {groupSize k : Nat}
    (legal : LegalGroup groupSize k) :
    normalisedGroupSize groupSize k = groupSize := by
  have positive := legal.pos
  have bounded := legal.le
  exact if_neg (by omega)

section Swapped

variable {around : CallSurroundings Cell} {args : GemmArgs}
    {accepted : AcceptedCall}

/-- The frame's A scales are the caller's B scales. -/
theorem swapped_aElement (scaled : ScaledCall around args accepted)
    (fresh : Bytes) (bBuf : Option Bytes) {j g : Nat}
    (column : j < args.n.toNat) (group : g < callGroups args accepted) :
    let size := sfElemSize accepted.node
    let buffer := dlpTransposeScale2d fresh around.bScales
      (bNg accepted.node args.k.toNat) args.n.toNat size
    let attr := grpPostOpAttr (swappedNode accepted.node (some buffer) bBuf)
      args.m.toNat args.k.toNat
    elementBytes size buffer (attr.aIndex j g) =
      elementBytes size around.bScales
        (callerBIndex accepted.bOp args.n.toNat g j) := by
  intro size buffer attr
  have groups : numGroups (normalisedGroupSize accepted.node.groupSize.toNat
      args.k.toNat) args.k.toNat = callGroups args accepted := by
    rw [normalised_of_legal scaled.legal]
    rfl
  rcases scaled.bDim with dim | dim
  · have node : accepted.node.bScaleFactorDim = .perChannel :=
      scaled.nodeBDim.trans dim
    have rows : bNg accepted.node args.k.toNat = 1 := if_pos node
    have index : attr.aIndex j g = j * bNg accepted.node args.k.toNat + 0 := by
      simp [attr, GrpPostOpAttr.aIndex, grpPostOpAttr, swappedNode,
        swappedDim, node, rows]
    have source : callerBIndex accepted.bOp args.n.toNat g j =
        0 * args.n.toNat + j := by
      rw [callerBIndex, if_pos dim, Nat.zero_mul, Nat.zero_add]
    rw [index, source]
    exact transposed_element fresh around.bScales size
      (rows ▸ Nat.one_pos) column
  · have node : accepted.node.bScaleFactorDim = .perGroup :=
      scaled.nodeBDim.trans dim
    have rows : bNg accepted.node args.k.toNat = callGroups args accepted :=
      if_neg (by rw [node]; decide)
    have index : attr.aIndex j g = j * bNg accepted.node args.k.toNat + g := by
      simp [attr, GrpPostOpAttr.aIndex, grpPostOpAttr, swappedNode,
        swappedDim, node, rows, groups]
    have source : callerBIndex accepted.bOp args.n.toNat g j =
        g * args.n.toNat + j := by
      rw [callerBIndex, if_neg (by rw [dim]; decide)]
    rw [index, source]
    exact transposed_element fresh around.bScales size (rows ▸ group) column

/-- The frame's B scales are the caller's A scales. -/
theorem swapped_bElement (scaled : ScaledCall around args accepted)
    (fresh : Bytes) (aBuf : Option Bytes) {i g : Nat}
    (row : i < args.m.toNat) (group : g < callGroups args accepted) :
    let size := sfElemSize accepted.node
    let buffer := dlpTransposeScale2d fresh around.aScales args.m.toNat
      (aNg accepted.node args.k.toNat) size
    let attr := grpPostOpAttr (swappedNode accepted.node aBuf (some buffer))
      args.m.toNat args.k.toNat
    elementBytes size buffer (attr.bIndex g i) =
      elementBytes size around.aScales
        (callerAIndex accepted.aOp (callGroups args accepted) i g) := by
  intro size buffer attr
  rcases scaled.aDim with dim | dim
  · have node : accepted.node.aScaleFactorDim = .perToken :=
      scaled.nodeADim.trans dim
    have columns : aNg accepted.node args.k.toNat = 1 := if_pos node
    have index : attr.bIndex g i = 0 * args.m.toNat + i := by
      simp [attr, GrpPostOpAttr.bIndex, grpPostOpAttr, swappedNode,
        swappedDim, node]
    have source : callerAIndex accepted.aOp (callGroups args accepted) i g =
        i * aNg accepted.node args.k.toNat + 0 := by
      rw [callerAIndex, if_pos dim, columns, Nat.mul_one, Nat.add_zero]
    rw [index, source]
    exact transposed_element fresh around.aScales size row
      (columns ▸ Nat.one_pos)
  · have node : accepted.node.aScaleFactorDim = .perGroup :=
      scaled.nodeADim.trans dim
    have columns : aNg accepted.node args.k.toNat =
        callGroups args accepted :=
      if_neg (by rw [node]; decide)
    have index : attr.bIndex g i = g * args.m.toNat + i := by
      simp [attr, GrpPostOpAttr.bIndex, grpPostOpAttr, swappedNode,
        swappedDim, node]
    have source : callerAIndex accepted.aOp (callGroups args accepted) i g =
        i * aNg accepted.node args.k.toNat + g := by
      rw [callerAIndex, if_neg (by rw [dim]; decide), columns]
    rw [index, source]
    exact transposed_element fresh around.aScales size row
      (columns ▸ group)

end Swapped

/-- The storage types whose elements the transposition moves whole. -/
def MovedWhole (storType : DlpType) : Prop :=
  storType = .bf16 ∨ storBits storType = 32

instance (storType : DlpType) : Decidable (MovedWhole storType) :=
  inferInstanceAs (Decidable (_ ∨ _))

/-- The element size of the transposition is that of these types. -/
theorem elemSize_eq_iff {node : GroupNode} {storType : DlpType}
    (stored : node.sfStorType = dlpGemmGetStorType storType) :
    8 * sfElemSize node = storBits storType ↔ MovedWhole storType := by
  unfold sfElemSize
  rw [stored]
  cases storType <;> decide

/-- The swap of a column-major call is exact for the storage types of its
element sizes. -/
theorem columnMajor_swap_iff {around : CallSurroundings Cell}
    {args : SymQuantArgs} {metadata : Option SymQuantMetadata}
    {accepted : AcceptedCall} {problem : SymQuantProblem}
    {state final : CallState Cell}
    (column : isColumnMajor args.gemm.order = true)
    (accepts : acceptCall around args.gemm metadata = .ok accepted)
    (prepares : preparedProblem around args metadata state =
      .ok problem final) :
    SwapExact around args.gemm accepted problem ↔
      MovedWhole (scaleStorType (some accepted.aOp)) := by
  have scaled := scaledCall_of_accepted accepts
  have size := elemSize_eq_iff scaled.storType
  rcases preparedProblem_columnMajor column accepts prepares with
    ⟨aFresh, bFresh, node, groupOps, width, depth⟩
  constructor
  · intro exact
    exact size.mp exact.fullWidth.1
  · intro whole
    have bits := size.mpr whole
    have bytes : storBits (scaleStorType (some accepted.aOp)) / 8 =
        sfElemSize accepted.node := by
      rw [← bits, Nat.mul_div_cancel_left _ (by decide)]
    constructor
    case aScales =>
      intro j g inside group
      rw [← scaled.sameType, bytes, node, width, depth]
      exact congrArg some
        (swapped_aElement scaled aFresh _ inside group)
    case bScales =>
      intro i g inside group
      rw [bytes, node, width, depth]
      exact congrArg some
        (swapped_bElement scaled bFresh _ inside group)
    case fullWidth => exact ⟨bits, scaled.sameType ▸ bits⟩
    case dims =>
      rw [groupOps, node]
      constructor
      · rw [relabelled_dim (by rcases scaled.bDim with dim | dim <;>
          (rw [dim]; decide))]
        exact congrArg _ scaled.nodeBDim.symm
      · rw [relabelled_dim (by rcases scaled.aDim with dim | dim <;>
          (rw [dim]; decide))]
        exact congrArg _ scaled.nodeADim.symm

/-- The generators take scale factors of a storage type that is moved
whole. -/
theorem movedWhole_of_handle {engine : QuantEngine}
    {problem handed : SymQuantProblem}
    (handle : quantKernelHandle engine problem = some handed) :
    MovedWhole (scaleStorType (some problem.groupOps.bPostQuantOp)) := by
  unfold quantKernelHandle at handle
  split at handle
  next => cases handle
  next =>
    split at handle
    next takes =>
      simp only [jitTakesScales, Bool.and_eq_true, Bool.or_eq_true,
        decide_eq_true_eq] at takes
      rcases takes.1.2 with single | half
      · exact Or.inr (by rw [single]; rfl)
      · exact Or.inl half
    next => cases handle

theorem relabelled_storType (quantOp : DlpQuantOp)
    (collapses becomes : ParamDim) :
    scaleStorType (some (relabelled quantOp collapses becomes)) =
      scaleStorType (some quantOp) := by
  cases factors : quantOp.dequantScaleFactors with
  | none => simp [scaleStorType, scaleFactorsOf, relabelled, factors]
  | some scl => simp [scaleStorType, scaleFactorsOf, relabelled, factors]

/-- Where the generators emit a kernel the swap is exact, so no decorator
runs on scale factors that were torn apart. -/
theorem swapExact_of_handle {around : CallSurroundings Cell}
    {args : SymQuantArgs} {metadata : Option SymQuantMetadata}
    {accepted : AcceptedCall} {problem handed : SymQuantProblem}
    {state final : CallState Cell}
    (column : isColumnMajor args.gemm.order = true)
    (accepts : acceptCall around args.gemm metadata = .ok accepted)
    (prepares : preparedProblem around args metadata state =
      .ok problem final)
    (handle : quantKernelHandle around.engine problem = some handed) :
    SwapExact around args.gemm accepted problem := by
  rcases preparedProblem_columnMajor column accepts prepares with
    ⟨-, -, -, groupOps, -, -⟩
  have whole := movedWhole_of_handle handle
  rw [groupOps, relabelled_storType] at whole
  exact (columnMajor_swap_iff column accepts prepares).mpr whole

/-- An operation over groups of four with scale factors of a type. -/
def groupsOfFour (storType : DlpType) (outerDim : ParamDim) : DlpQuantOp :=
  ⟨.quantize, 4, none, some ⟨false, 4, storType, outerDim⟩, none⟩

/-- Two by two outputs over two groups, stored by columns. -/
def squareArgs : SymQuantArgs :=
  ⟨⟨'c', 'n', 'n', 2, 2, 8, false, 2, 'n', false, 8, 'n', false, 2⟩, 1, 0⟩

/-- Metadata without post-operations. -/
def squareMetadata (storType : DlpType) : SymQuantMetadata :=
  ⟨⟨none, none, none⟩, ⟨none, none, none, none, none, 0, none, none⟩,
    some (groupsOfFour storType .perGroup),
    some (groupsOfFour storType .perGroup)⟩

/-- A processor of the fifth generation on one thread, whose scale factors
count their bytes. -/
def squareSurroundings : CallSurroundings Unit where
  processor := ⟨false, true, true, true, true, .zen5, true⟩
  supThres := ⟨0, 0, 0⟩
  engine := ⟨fun _ => true, fun _ _ _ => true⟩
  rntm := ⟨1, 1, 1⟩
  aScales := fun byte => UInt8.ofNat byte
  bScales := fun byte => UInt8.ofNat byte
  mallocA := some fun _ => 0
  mallocB := some fun _ => 0
  nodes := fun _ => disabledNode
  decorator := fun _ _ c => c

/-- The state in which the call of the square starts. -/
def squareState : CallState Unit :=
  startState (some (squareMetadata .f32)) .success fun _ => ()

theorem columnMajor_swap_square :
    ∃ accepted problem final,
      acceptCall squareSurroundings squareArgs.gemm
        (some (squareMetadata .f32)) = .ok accepted ∧
      preparedProblem squareSurroundings squareArgs
        (some (squareMetadata .f32)) squareState = .ok problem final ∧
      SwapExact squareSurroundings squareArgs.gemm accepted problem :=
  ⟨_, _, _, rfl, rfl,
    (@columnMajor_swap_iff Unit squareSurroundings squareArgs
      (some (squareMetadata .f32)) _ _ squareState _ (by decide) rfl
      rfl).mpr (by decide)⟩

/-- Half-precision scale factors pass every check and are moved in pairs. -/
theorem columnMajor_swap_f16 :
    ∃ accepted problem final,
      acceptCall squareSurroundings squareArgs.gemm
        (some (squareMetadata .f16)) = .ok accepted ∧
      preparedProblem squareSurroundings squareArgs
        (some (squareMetadata .f16)) squareState = .ok problem final ∧
      (problem.grpPostOp.aScaleFactor.map fun array =>
        elementBytes 2 array
          ((grpPostOpAttr problem.grpPostOp 2 8).aIndex 0 1)) =
        some [2, 3] ∧
      elementBytes 2 squareSurroundings.bScales
        (callerBIndex accepted.bOp 2 1 0) = [4, 5] ∧
      ¬ SwapExact squareSurroundings squareArgs.gemm accepted problem := by
  refine ⟨_, _, _, rfl, rfl, by decide, by decide, ?_⟩
  intro exact
  exact absurd exact.fullWidth.1 (by decide)

end AoclDlp.Quant.ScaleSwap
