import AoclDlp.Api.GemmCheck

/-!
# Quantisation groups

The quantised entry points describe each operand by a `dlp_quant_op_t`: its
kind, its group size along K and its scale factors.  The group size of a call
is read twice, by the reorder from the metadata and by the GEMM while it
translates the quantisation operations into a group post-op; zero stands for
one group over the whole of K in both.

A K block must not split a group, so both sides move the block size of the
table to a multiple of the group size.
-/

namespace AoclDlp.Quant.GroupSize

open AoclDlp.Api.GemmCheck
open AoclDlp.Config.LocalContext

/-- `DLP_PARAM_DIM_TYPE`. -/
inductive ParamDim where
  | invalid
  | perTensor
  | perChannel
  | perToken
  | perGroup
  deriving DecidableEq, Repr

/-- `DLP_QUANT_OP_KIND`. -/
inductive QuantOpKind where
  | none
  | quantize
  | dequantize
  | expand
  deriving DecidableEq, Repr

/-- `DLP_TYPE`. -/
inductive DlpType where
  | invalid
  | s4
  | u4
  | f4
  | s8
  | u8
  | s16
  | u16
  | f16
  | bf16
  | s32
  | u32
  | f32
  deriving DecidableEq, Repr

/-- `dlp_qparam_t`; of its data, whether it is NULL. -/
structure DlpQparam where
  dataIsNull : Bool
  len : Int
  storType : DlpType
  outerDim : ParamDim
  deriving DecidableEq, Repr

/-- `dlp_quant_op_t`. -/
structure DlpQuantOp where
  quantOpKind : QuantOpKind
  groupSize : Int
  quantScaleFactors : Option DlpQparam
  dequantScaleFactors : Option DlpQparam
  zeroPoint : Option DlpQparam
  deriving DecidableEq, Repr

/-- The fields of `dlp_metadata_t` that the quantised entry points read. -/
structure QuantMetadata where
  cntx : DlpMetadata
  seqLength : Int
  hasGlu : Bool
  aQuantOp : Option DlpQuantOp
  bQuantOp : Option DlpQuantOp
  deriving DecidableEq, Repr

/-- The group size of an operand; zero stands for the whole of K. -/
def groupSizeOf (k : Int) (quantOp : Option DlpQuantOp) : Int :=
  let stated := (quantOp.map DlpQuantOp.groupSize).getD 0
  if stated = 0 then k else stated

/-- An operation that is present and not of the kind quantize. -/
def otherKind (quantOp : Option DlpQuantOp) : Bool :=
  quantOp.any fun op => decide (op.quantOpKind ≠ .quantize)

/-- `dlp_get_sym_quant_group_size_from_metadata`. -/
def dlpGetSymQuantGroupSizeFromMetadata (metadata : Option QuantMetadata)
    (k : Int) : Except DlpClscErr Int :=
  match metadata with
  | none => .error .nullPointer
  | some metadata => do
      let aGroupSize := groupSizeOf k metadata.aQuantOp
      let bGroupSize := groupSizeOf k metadata.bQuantOp
      let gs := if metadata.bQuantOp.isSome then bGroupSize else aGroupSize
      runRules
        [⟨otherKind metadata.aQuantOp || otherKind metadata.bQuantOp,
            .notSupported⟩,
          ⟨metadata.aQuantOp.isSome && metadata.bQuantOp.isSome &&
            decide (aGroupSize ≠ bGroupSize), .invalidGroupDimension⟩,
          ⟨decide (gs ≤ 0) || decide (k < gs), .invalidGroupDimension⟩,
          ⟨decide (gs ≠ k) && decide (gs % 4 ≠ 0), .invalidGroupDimension⟩]
      .ok gs

/-- The fields of `dlp_gemm_group_post_op` that describe the groups. -/
structure DlpGemmGroupPostOp where
  groupSize : Int
  aScaleFactorDim : ParamDim
  bScaleFactorDim : ParamDim
  aScaleFactorLen : Int
  bScaleFactorLen : Int
  deriving DecidableEq, Repr

/-- Scale factors that claim elements without data. -/
def missingData (scaleFactors : Option DlpQparam) : Bool :=
  scaleFactors.any fun param => decide (0 < param.len) && param.dataIsNull

/-- Scale factors shorter than the groups of an operand need. -/
def tooShort (scaleFactors : Option DlpQparam) (needed : Int) : Bool :=
  scaleFactors.any fun param => decide (param.len < needed)

/-- The scale factors with which an accumulator is rescaled. -/
def scaleFactorsOf (quantOp : Option DlpQuantOp) : Option DlpQparam :=
  quantOp.bind DlpQuantOp.dequantScaleFactors

/-- The granularity of the scale factors, invalid where there are none. -/
def scaleFactorDim (quantOp : Option DlpQuantOp) : ParamDim :=
  ((scaleFactorsOf quantOp).map DlpQparam.outerDim).getD .invalid

/-- The length of the scale factors, zero where there are none. -/
def scaleFactorLen (quantOp : Option DlpQuantOp) : Int :=
  ((scaleFactorsOf quantOp).map DlpQparam.len).getD 0

/-- The group size that the translation settles on. -/
def translatedGroupSize (aQuantOp bQuantOp : Option DlpQuantOp) (k : Int) :
    Int :=
  if aQuantOp.isSome then groupSizeOf k aQuantOp else groupSizeOf k bQuantOp

/-- The rules of `dlp_gemm_translate_to_group_postops_list`. -/
def groupPostopsRules (aQuantOp bQuantOp : Option DlpQuantOp)
    (m n k : Int) : List Rule :=
  let groupSize := translatedGroupSize aQuantOp bQuantOp k
  let numGroups := (k + groupSize - 1) / groupSize
  let aScl := scaleFactorsOf aQuantOp
  let bScl := scaleFactorsOf bQuantOp
  let aDim := scaleFactorDim aQuantOp
  let bDim := scaleFactorDim bQuantOp
  let aNumGroups := if aDim = .perToken then 1 else numGroups
  let bNumGroups := if bDim = .perChannel then 1 else numGroups
  [⟨otherKind aQuantOp, .notSupported⟩,
    ⟨otherKind bQuantOp, .notSupported⟩,
    ⟨aQuantOp.any fun op => op.zeroPoint.isSome, .notSupported⟩,
    ⟨bQuantOp.any fun op => op.zeroPoint.isSome, .notSupported⟩,
    ⟨aQuantOp.isSome && bQuantOp.isSome &&
      decide (groupSizeOf k aQuantOp ≠ groupSizeOf k bQuantOp),
      .invalidGroupDimension⟩,
    ⟨decide (k < groupSize) || decide (groupSize < 0),
      .invalidGroupDimension⟩,
    ⟨decide (groupSize ≠ k) && decide (groupSize % 4 ≠ 0),
      .invalidGroupDimension⟩,
    ⟨decide (aDim = .invalid) || decide (bDim = .invalid), .notSupported⟩,
    ⟨missingData aScl, .nullPointer⟩,
    ⟨tooShort aScl (m * aNumGroups), .invalidSfLen⟩,
    ⟨missingData bScl, .nullPointer⟩,
    ⟨tooShort bScl (n * bNumGroups), .invalidSfLen⟩,
    ⟨aScl.any fun a => bScl.any fun b => decide (a.storType ≠ b.storType),
      .typeMismatch⟩]

/-- `dlp_gemm_translate_to_group_postops_list`. -/
def dlpGemmTranslateToGroupPostopsList
    (aQuantOp bQuantOp : Option DlpQuantOp) (m n k : Int) :
    Except DlpClscErr DlpGemmGroupPostOp :=
  if aQuantOp.isNone ∧ bQuantOp.isNone then
    .ok ⟨0, .perGroup, .perGroup, 0, 0⟩
  else do
    runRules (groupPostopsRules aQuantOp bQuantOp m n k)
    .ok
      { groupSize := translatedGroupSize aQuantOp bQuantOp k
        aScaleFactorDim := scaleFactorDim aQuantOp
        bScaleFactorDim := scaleFactorDim bQuantOp
        aScaleFactorLen := scaleFactorLen aQuantOp
        bScaleFactorLen := scaleFactorLen bQuantOp }

/-! ## The K block -/

/-- `dlp_gemm_align_kc_to_group`. -/
def dlpGemmAlignKcToGroup (kc groupSize : Nat) : Nat :=
  if kc < groupSize then groupSize
  else if kc % groupSize ≠ 0 then kc / groupSize * groupSize
  else kc

/-- `group_size` with zero and every size beyond `k` standing for `k`. -/
def normalisedGroupSize (groupSize k : Nat) : Nat :=
  if groupSize = 0 ∨ k < groupSize then k else groupSize

/-- `dlp_gemm_sym_quant_sum_vectors`. -/
def dlpGemmSymQuantSumVectors (kc groupSize k : Nat) : Nat :=
  let gs := normalisedGroupSize groupSize k
  if 0 < k ∧ gs = k then (k + kc - 1) / kc else (k + gs - 1) / gs

/-- The K block of a sym-quant GEMM: a single group over a wide B keeps the
block it starts from. -/
def symQuantKC (baseKC groupSize n k : Nat) : Nat :=
  if n = 1 ∨ groupSize ≠ k then dlpGemmAlignKcToGroup baseKC groupSize
  else baseKC

theorem dvd_alignKc (kc groupSize : Nat) :
    groupSize ∣ dlpGemmAlignKcToGroup kc groupSize := by
  unfold dlpGemmAlignKcToGroup
  split_ifs with small uneven
  · exact dvd_rfl
  · exact dvd_mul_left groupSize (kc / groupSize)
  · exact Nat.dvd_of_mod_eq_zero (not_not.mp uneven)

theorem alignKc_of_dvd {kc groupSize : Nat} (positive : 0 < kc)
    (divides : groupSize ∣ kc) :
    dlpGemmAlignKcToGroup kc groupSize = kc := by
  unfold dlpGemmAlignKcToGroup
  rw [if_neg (not_lt.mpr (Nat.le_of_dvd positive divides)),
    if_neg (not_not.mpr (Nat.mod_eq_zero_of_dvd divides))]

theorem alignKc_pos {kc groupSize : Nat} (group : 0 < groupSize)
    (positive : 0 < kc) : 0 < dlpGemmAlignKcToGroup kc groupSize := by
  unfold dlpGemmAlignKcToGroup
  split_ifs with small uneven
  · exact group
  · exact Nat.mul_pos (Nat.div_pos (not_lt.mp small) group) group
  · exact positive

theorem symQuantKC_pos {baseKC groupSize n k : Nat} (group : 0 < groupSize)
    (positive : 0 < baseKC) : 0 < symQuantKC baseKC groupSize n k := by
  unfold symQuantKC
  split_ifs
  · exact alignKc_pos group positive
  · exact positive

/-- When a group divides the K block. -/
theorem dvd_symQuantKC_iff (baseKC groupSize n k : Nat) :
    groupSize ∣ symQuantKC baseKC groupSize n k ↔
      n = 1 ∨ groupSize ≠ k ∨ k ∣ baseKC := by
  unfold symQuantKC
  by_cases single : n = 1
  · rw [if_pos (Or.inl single)]
    exact ⟨fun _ => Or.inl single, fun _ => dvd_alignKc baseKC groupSize⟩
  · by_cases whole : groupSize = k
    · subst whole
      simp [single]
    · rw [if_pos (Or.inr whole)]
      exact ⟨fun _ => Or.inr (Or.inl whole),
        fun _ => dvd_alignKc baseKC groupSize⟩

/-! ## Legal groups -/

/-- The group sizes that both sides accept. -/
structure LegalGroup (groupSize k : Nat) : Prop where
  pos : 0 < groupSize
  le : groupSize ≤ k
  whole_or_dvd : groupSize = k ∨ 4 ∣ groupSize

theorem groupSizeOf_some (k : Int) (op : DlpQuantOp) :
    groupSizeOf k (some op) =
      if op.groupSize = 0 then k else op.groupSize :=
  rfl

/-- What a successful translation of two operations returns. -/
structure Translated (aQuantOp bQuantOp : DlpQuantOp) (k : Int)
    (groupPostOp : DlpGemmGroupPostOp) : Prop where
  groupSize : groupPostOp.groupSize = groupSizeOf k (some aQuantOp)
  same : groupSizeOf k (some aQuantOp) = groupSizeOf k (some bQuantOp)
  legal : LegalGroup groupPostOp.groupSize.toNat k.toNat
  nonneg : 0 ≤ groupPostOp.groupSize

theorem translated_of_ok {aQuantOp bQuantOp : DlpQuantOp} {m n k : Int}
    {groupPostOp : DlpGemmGroupPostOp} (positive : 0 < k)
    (translates : dlpGemmTranslateToGroupPostopsList (some aQuantOp)
      (some bQuantOp) m n k = .ok groupPostOp) :
    Translated aQuantOp bQuantOp k groupPostOp := by
  unfold dlpGemmTranslateToGroupPostopsList at translates
  rw [if_neg (by simp)] at translates
  rcases bind_ok translates with ⟨_, accepted, rest⟩
  cases rest
  have accepts := (runRules_ok_iff _).mp accepted
  simp only [groupPostopsRules, List.forall_mem_cons,
    translatedGroupSize, Option.isSome_some, if_true, Bool.true_and,
    Bool.or_eq_false_iff, Bool.and_eq_false_iff, decide_eq_false_iff_not,
    not_not, not_lt] at accepts
  rcases accepts with ⟨-, -, -, -, same, ⟨le, nonneg⟩, multiple, -⟩
  have nonzero : groupSizeOf k (some aQuantOp) ≠ 0 := by
    rw [groupSizeOf_some]
    split_ifs with default
    · exact positive.ne'
    · exact default
  refine ⟨rfl, same, ⟨?_, ?_, ?_⟩, nonneg⟩
  all_goals
    simp only [translatedGroupSize, Option.isSome_some, if_true]
    omega

/-- The reorder settles on the same group size. -/
theorem reorderGroupSize_eq {metadata : QuantMetadata}
    {aQuantOp bQuantOp : DlpQuantOp} {k groupSize : Int}
    (statesA : metadata.aQuantOp = some aQuantOp)
    (statesB : metadata.bQuantOp = some bQuantOp)
    (reads : dlpGetSymQuantGroupSizeFromMetadata (some metadata) k =
      .ok groupSize) :
    groupSize = groupSizeOf k (some bQuantOp) := by
  unfold dlpGetSymQuantGroupSizeFromMetadata at reads
  rcases bind_ok reads with ⟨_, -, rest⟩
  cases rest
  rw [statesA, statesB]
  rfl

end AoclDlp.Quant.GroupSize
