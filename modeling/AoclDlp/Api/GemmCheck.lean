import AoclDlp.Config.LocalContext

/-!
# The argument checks of the entry points

`aocl_dlp_gemm_check.h` runs through the arguments of a call and reports the
first one that is illegal.  Orders, transposes, memory tags and matrix types
come as characters; dimensions and leading dimensions are signed and bounded
by the largest 32-bit integer.

A check is a list of rules, each the condition it rejects and the code it
reports.  Of a pointer argument a check reads only whether it is NULL.
-/

namespace AoclDlp.Api.GemmCheck

open AoclDlp.Config.BlockSize
open AoclDlp.Config.LocalContext

/-- `DLP_MAX_GEMM_DIM`, also `DLP_MAX_GROUP_SIZE`. -/
def dlpMaxGemmDim : Int :=
  2147483647

/-! ## Rules -/

/-- A condition that a check rejects, with the code that it reports. -/
structure Rule where
  rejects : Bool
  code : DlpClscErr
  deriving DecidableEq, Repr

/-- The outcome of a check: the code of the first rule that rejects. -/
def runRules : List Rule → Except DlpClscErr Unit
  | [] => .ok ()
  | rule :: rules =>
      if rule.rejects then .error rule.code else runRules rules

theorem runRules_ok_iff (rules : List Rule) :
    runRules rules = .ok () ↔ ∀ rule ∈ rules, rule.rejects = false := by
  induction rules with
  | nil => simp [runRules]
  | cons rule rules ih =>
      cases rejected : rule.rejects with
      | true => simp [runRules, rejected]
      | false => simp [runRules, rejected, ih]

/-! ## The characters -/

/-- `order` is row major. -/
def isRowMajor (order : Char) : Bool :=
  order == 'r' || order == 'R'

/-- `order` is column major. -/
def isColumnMajor (order : Char) : Bool :=
  order == 'c' || order == 'C'

/-- `trans` asks for the matrix as it is stored. -/
def isNoTrans (trans : Char) : Bool :=
  trans == 'n' || trans == 'N'

/-- `trans` asks for the transpose. -/
def isTrans (trans : Char) : Bool :=
  trans == 't' || trans == 'T'

/-- A memory format that the checks accept. -/
def isMemFormat (format : Char) : Bool :=
  format == 'n' || format == 'N' || format == 'p' || format == 'P' ||
    format == 'r' || format == 'R'

/-- `dlp_param_map_char_to_lpmtag`. -/
def dlpParamMapCharToLpmtag (format : Char) : MemoryTag :=
  if format == 'n' || format == 'N' then .unpacked
  else if format == 'p' || format == 'P' then .pack
  else if format == 'r' || format == 'R' then .reordered
  else .unpacked

/-- `AOCL_DLP_MATRIX_TYPE`. -/
inductive MatrixType where
  | aMatrix
  | bMatrix
  | awqBMatrix
  deriving DecidableEq, Repr

/-- `dlp_param_map_char_to_lpmat_type`. -/
def dlpParamMapCharToLpmatType (matType : Char) : MatrixType :=
  if matType == 'a' || matType == 'A' then .aMatrix
  else if matType == 'b' || matType == 'B' then .bMatrix
  else if matType == 'w' || matType == 'W' then .awqBMatrix
  else .bMatrix

/-- A matrix type that the checks accept. -/
def isMatrixType (matType : Char) : Bool :=
  matType == 'A' || matType == 'B' || matType == 'W' || matType == 'a' ||
    matType == 'b' || matType == 'w'

/-- A dimension that the checks reject. -/
def badDim (dim : Int) : Bool :=
  decide (dim ≤ 0) || decide (dlpMaxGemmDim < dim)

/-! ## The checks -/

/-- The arguments that `AOCL_DLP_GEMM_CHECK` reads. -/
structure GemmArgs where
  order : Char
  transa : Char
  transb : Char
  m : Int
  n : Int
  k : Int
  aIsNull : Bool
  lda : Int
  memFormatA : Char
  bIsNull : Bool
  ldb : Int
  memFormatB : Char
  cIsNull : Bool
  ldc : Int
  deriving DecidableEq, Repr

/-- A stored matrix whose rows, or columns, do not fit its leading
dimension. -/
def badLeadingDim (order trans : Char) (rows columns ld : Int) : Bool :=
  (isRowMajor order &&
      ((isNoTrans trans && decide (ld < columns)) ||
        (isTrans trans && decide (ld < rows)))) ||
    (isColumnMajor order &&
      ((isNoTrans trans && decide (ld < rows)) ||
        (isTrans trans && decide (ld < columns)))) ||
    decide (dlpMaxGemmDim < ld)

/-- The rules of `AOCL_DLP_GEMM_CHECK`. -/
def gemmRules (args : GemmArgs) : List Rule :=
  [⟨!(isRowMajor args.order || isColumnMajor args.order), .invalidOrder⟩,
    ⟨!(isNoTrans args.transa || isTrans args.transa), .invalidTranspose⟩,
    ⟨!(isNoTrans args.transb || isTrans args.transb), .invalidTranspose⟩,
    ⟨badDim args.m, .invalidMatrixDimension⟩,
    ⟨badDim args.n, .invalidMatrixDimension⟩,
    ⟨badDim args.k, .invalidMatrixDimension⟩,
    ⟨args.aIsNull, .nullPointer⟩,
    ⟨badLeadingDim args.order args.transa args.m args.k args.lda,
      .invalidLeadingDimension⟩,
    ⟨!isMemFormat args.memFormatA, .invalidMemoryTag⟩,
    ⟨args.bIsNull, .nullPointer⟩,
    ⟨badLeadingDim args.order args.transb args.k args.n args.ldb,
      .invalidLeadingDimension⟩,
    ⟨!isMemFormat args.memFormatB, .invalidMemoryTag⟩,
    ⟨args.cIsNull, .nullPointer⟩,
    ⟨(isRowMajor args.order && decide (args.ldc < args.n)) ||
        (isColumnMajor args.order && decide (args.ldc < args.m)) ||
        decide (dlpMaxGemmDim < args.ldc), .invalidLeadingDimension⟩]

/-- `AOCL_DLP_GEMM_CHECK`. -/
def aoclDlpGemmCheck (args : GemmArgs) : Except DlpClscErr Unit :=
  runRules (gemmRules args)

/-- The arguments that `AOCL_DLP_REORDER_CHECK` reads. -/
structure ReorderArgs where
  order : Char
  trans : Char
  matType : Char
  inputIsNull : Bool
  reorderIsNull : Bool
  k : Int
  n : Int
  ldb : Int
  deriving DecidableEq, Repr

/-- The rules of `AOCL_DLP_REORDER_CHECK`. -/
def reorderRules (args : ReorderArgs) : List Rule :=
  [⟨!(isRowMajor args.order || isColumnMajor args.order), .invalidOrder⟩,
    ⟨!(isNoTrans args.trans || isTrans args.trans), .invalidTranspose⟩,
    ⟨!isMatrixType args.matType, .invalidMatrixType⟩,
    ⟨args.inputIsNull, .nullPointer⟩,
    ⟨args.reorderIsNull, .nullPointer⟩,
    ⟨badDim args.k, .invalidMatrixDimension⟩,
    ⟨badDim args.n, .invalidMatrixDimension⟩,
    ⟨badLeadingDim args.order args.trans args.k args.n args.ldb,
      .invalidLeadingDimension⟩]

/-- `AOCL_DLP_REORDER_CHECK`. -/
def aoclDlpReorderCheck (args : ReorderArgs) : Except DlpClscErr Unit :=
  runRules (reorderRules args)

/-! ## What an accepted call satisfies -/

theorem badDim_eq_false_iff (dim : Int) :
    badDim dim = false ↔ 0 < dim ∧ dim ≤ dlpMaxGemmDim := by
  simp [badDim]

/-- The dimensions of an accepted call. -/
structure GemmArgs.Sized (args : GemmArgs) : Prop where
  m_pos : 0 < args.m
  n_pos : 0 < args.n
  k_pos : 0 < args.k

theorem sized_of_check {args : GemmArgs}
    (accepted : aoclDlpGemmCheck args = .ok ()) : args.Sized := by
  have accepts := (runRules_ok_iff _).mp accepted
  refine ⟨?_, ?_, ?_⟩
  · exact ((badDim_eq_false_iff _).mp
      (accepts ⟨badDim args.m, .invalidMatrixDimension⟩
        (by simp [gemmRules]))).1
  · exact ((badDim_eq_false_iff _).mp
      (accepts ⟨badDim args.n, .invalidMatrixDimension⟩
        (by simp [gemmRules]))).1
  · exact ((badDim_eq_false_iff _).mp
      (accepts ⟨badDim args.k, .invalidMatrixDimension⟩
        (by simp [gemmRules]))).1

theorem order_of_check {args : GemmArgs}
    (accepted : aoclDlpGemmCheck args = .ok ()) :
    isRowMajor args.order = true ∨ isColumnMajor args.order = true := by
  have accepts := (runRules_ok_iff _).mp accepted
    ⟨!(isRowMajor args.order || isColumnMajor args.order), .invalidOrder⟩
    (by simp [gemmRules])
  rw [Bool.not_eq_false'] at accepts
  exact Bool.or_eq_true_iff.mp accepts

/-- The rows, or columns, of the output fit its leading dimension. -/
theorem ldc_of_check {args : GemmArgs}
    (accepted : aoclDlpGemmCheck args = .ok ()) :
    (isRowMajor args.order = true → args.n ≤ args.ldc) ∧
      (isColumnMajor args.order = true → args.m ≤ args.ldc) := by
  have accepts := (runRules_ok_iff _).mp accepted
    ⟨(isRowMajor args.order && decide (args.ldc < args.n)) ||
        (isColumnMajor args.order && decide (args.ldc < args.m)) ||
        decide (dlpMaxGemmDim < args.ldc), .invalidLeadingDimension⟩
    (by simp [gemmRules])
  rw [Bool.or_eq_false_iff, Bool.or_eq_false_iff] at accepts
  rcases accepts with ⟨⟨rows, columns⟩, -⟩
  constructor
  · intro rowMajor
    rw [rowMajor, Bool.true_and, decide_eq_false_iff_not] at rows
    exact not_lt.mp rows
  · intro columnMajor
    rw [columnMajor, Bool.true_and, decide_eq_false_iff_not] at columns
    exact not_lt.mp columns

end AoclDlp.Api.GemmCheck
