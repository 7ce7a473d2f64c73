import AoclDlp.Foundations.MachineInt
import AoclDlp.Layout.Bf16Fallback
import AoclDlp.Quant.ReorderedFrame
import AoclDlp.Quant.S4Reorder

/-!
# The size of a reorder buffer

Four queries return the bytes that a reordered B takes.  They compute in
machine words: dimensions are signed and 64 bits wide, sizes are unsigned and
64 bits wide.  Two of them multiply through checked products, the quantised
ones multiply raw words.

Every query first refuses dimensions beyond the largest 32-bit integer, and
no operation behind that check leaves its word.
-/

namespace AoclDlp.Api.ReorderSize

open AoclDlp.Api.GemmCheck
open AoclDlp.Config.BlockSize
open AoclDlp.Config.LocalContext
open AoclDlp.Foundations.MachineInt
open AoclDlp.Foundations.Rounding
open AoclDlp.Layout.Bf16Fallback
open AoclDlp.Layout.Chunk
open AoclDlp.Layout.S8s8s32
open AoclDlp.Quant.GroupReorder
open AoclDlp.Quant.GroupSize
open AoclDlp.Quant.ReorderedFrame
open AoclDlp.Quant.S4Reorder

/-! ## Sizes in machine words -/

/-- `md_t`. -/
def mdT (value : Int) : Int :=
  signedWord 64 value

/-- `msz_t`. -/
def mszT (value : Int) : Int :=
  unsignedWord 64 value

/-- `DLP_MSZ_MAX`. -/
def dlpMszMax : Int :=
  18446744073709551615

/-- `dlp_make_multiple_of_n`. -/
def mdMakeMultipleOfN (k n : Int) : Int :=
  if n ≤ 0 then 0 else wordRoundUp 64 k n

/-- `dlp_gemm_col_sum_byte_offset`. -/
def mdColSumByteOffset (k : Int) : Int :=
  mdMakeMultipleOfN (mdT (k * 1)) 4

/-- `dlp_gemm_align_kc_to_group`. -/
def mdAlignKcToGroup (kc groupSize : Int) : Int :=
  if kc < groupSize then groupSize
  else if kc.tmod groupSize ≠ 0 then mdT (kc.tdiv groupSize * groupSize)
  else kc

/-- `dlp_gemm_sym_quant_sum_vectors`. -/
def mdSymQuantSumVectors (kc groupSize k : Int) : Int :=
  let gs := if groupSize = 0 ∨ k < groupSize then k else groupSize
  if 0 < k ∧ gs = k then wordCeilDiv 64 k kc else wordCeilDiv 64 k gs

/-- `dlp_reorder_checked_mul_msz`. -/
def dlpReorderCheckedMulMsz (a b : Int) : Option Int :=
  checkedMul dlpMszMax a b

/-- `dlp_reorder_size_bytes`. -/
def dlpReorderSizeBytes (rows cols elemSz extra : Int) : Option Int :=
  if rows < 0 ∨ cols < 0 ∨ elemSz ≤ 0 then none
  else do
    let prod ← dlpReorderCheckedMulMsz (mszT rows) (mszT cols)
    let prod ← dlpReorderCheckedMulMsz prod (mszT elemSz)
    if dlpMszMax - prod < extra then none else some (prod + extra)

/-! ## The queries -/

/-- The arguments that `AOCL_DLP_REORDER_BUF_SIZE_CHECK` reads. -/
structure SizeArgs where
  order : Char
  trans : Char
  matType : Char
  k : Int
  n : Int
  deriving DecidableEq, Repr

/-- The rules of `AOCL_DLP_REORDER_BUF_SIZE_CHECK`. -/
def sizeRules (args : SizeArgs) : List Rule :=
  [⟨!(isRowMajor args.order || isColumnMajor args.order), .invalidOrder⟩,
    ⟨!(isNoTrans args.trans || isTrans args.trans), .invalidTranspose⟩,
    ⟨!isMatrixType args.matType, .invalidMatrixType⟩,
    ⟨badDim args.k, .invalidMatrixDimension⟩,
    ⟨badDim args.n, .invalidMatrixDimension⟩]

/-- The library around a query: the processor and the thresholds of the
operation. -/
structure Around where
  processor : Processor
  supThres : DlpGemmSupThreshold
  deriving DecidableEq, Repr

/-- The blocks of the operation's global context. -/
def Around.table (around : Around) (op : OperationType) : DlpGemmBlockSize :=
  dlpGemmCntxInitBlkszMap around.processor op

/-- The context of a query with the metadata on top, and the test of its
blocks against the width and the depth of a packed tile. -/
def queryCntx (around : Around) (op : OperationType) (minNR kFactor : Nat)
    (metadata : Option QuantMetadata) : Except DlpClscErr DlpGemmCntx := do
  let lcntx ← dlpGemmUpdCntxWithMetadata
    (dlpGemmGetGlobalCntxObj around.processor around.supThres op)
    (metadata.map QuantMetadata.cntx)
  dlpGemmValidateMetadataWithLcntx lcntx (metadata.map QuantMetadata.cntx)
  if dlpReorderRefBlocksLegal lcntx.blksz.NR minNR lcntx.blksz.KC kFactor then
    .ok lcntx
  else .error .invalidBlockParams

/-- An overflowing size is refused. -/
def sizeOr (size : Option Int) : Except DlpClscErr Int :=
  match size with
  | none => .error .invalidMatrixDimension
  | some size => .ok size

/-- `aocl_get_reorder_buf_size_s8s8s32os32`. -/
def aoclGetReorderBufSizeS8s8s32os32 (around : Around) (args : SizeArgs)
    (metadata : Option QuantMetadata) : Except DlpClscErr Int := do
  runRules (sizeRules args)
  runRules
    [⟨decide (dlpParamMapCharToLpmatType args.matType ≠ .bMatrix),
      .notSupported⟩]
  let _ ← queryCntx around .s8s8s32os32 dlpGetPackbS8s8s32o32MinNR 4 metadata
  if args.n = 1 then
    .ok (mszT (mszT (mdColSumByteOffset args.k) + 4))
  else do
    let nReorder := mdMakeMultipleOfN args.n 16
    let kReorder := mdMakeMultipleOfN args.k 4
    let extra ← sizeOr (dlpReorderCheckedMulMsz (mszT nReorder) 4)
    sizeOr (dlpReorderSizeBytes kReorder nReorder 1 extra)

/-- The size of the tight column with its column sums. -/
def columnSize (k numGroups : Int) : Int :=
  mszT (mszT (mdColSumByteOffset k) + mszT (mszT numGroups * 4))

/-- The gate of the tight column in the quantised queries. -/
def columnGate (KC groupSize n k : Int) : Bool :=
  decide (n = 1) && decide (k.tmod groupSize = 0) &&
    decide (KC.tmod groupSize = 0)

/-- The checks of a quantised query, and the group size it reads. -/
def quantQuery (around : Around) (args : SizeArgs)
    (metadata : Option QuantMetadata) : Except DlpClscErr Int := do
  runRules [⟨!around.processor.avx512vnni, .notSupported⟩]
  runRules (sizeRules args)
  runRules
    [⟨decide (dlpParamMapCharToLpmatType args.matType = .aMatrix),
      .notSupported⟩]
  dlpGetSymQuantGroupSizeFromMetadata metadata args.k

/-- `aocl_get_reorder_buf_size_s8s8s32os32_sym_quant`. -/
def aoclGetReorderBufSizeS8s8s32os32SymQuant (around : Around)
    (args : SizeArgs) (metadata : Option QuantMetadata) :
    Except DlpClscErr Int := do
  let groupSize ← quantQuery around args metadata
  let tableKC : Int := (around.table .s8s8s32os32).KC
  let gemvKC := mdAlignKcToGroup tableKC groupSize
  let KC := if groupSize = args.k then tableKC
    else mdAlignKcToGroup tableKC groupSize
  let numGroups := wordCeilDiv 64 args.k groupSize
  if columnGate gemvKC groupSize args.n args.k then
    .ok (columnSize args.k numGroups)
  else
    let nReorder := mdMakeMultipleOfN args.n 16
    let kReorder := mdMakeMultipleOfN args.k 4
    let sumVecs := mdSymQuantSumVectors KC groupSize args.k
    let extraMemReq := mszT (mszT (mdT (sumVecs * nReorder)) * 4)
    .ok (mszT (mszT (mszT (1 * mszT kReorder) * mszT nReorder) +
      extraMemReq))

/-- `aocl_get_reorder_buf_size_s8s4s32os32`. -/
def aoclGetReorderBufSizeS8s4s32os32 (around : Around) (args : SizeArgs)
    (metadata : Option QuantMetadata) : Except DlpClscErr Int := do
  let groupSize ← quantQuery around args metadata
  let tableKC : Int := (around.table .s8s8s32os32).KC
  let numGroups := wordCeilDiv 64 args.k groupSize
  let KC := mdAlignKcToGroup tableKC groupSize
  if columnGate KC groupSize args.n args.k then
    .ok (columnSize args.k numGroups)
  else
    let nReorder := mdMakeMultipleOfN args.n 16
    let kReorder := mdMakeMultipleOfN args.k 4
    let sumVecs := mdSymQuantSumVectors tableKC groupSize args.k
    let extraMemReq := mszT (mszT (mszT sumVecs * mszT nReorder) * 4)
    .ok (mszT (mszT (mszT (1 * mszT kReorder) * mszT nReorder) / 2 +
      extraMemReq))

/-- `aocl_get_reorder_buf_size_bf16bf16f32of32`. -/
def aoclGetReorderBufSizeBf16bf16f32of32 (around : Around) (args : SizeArgs)
    (metadata : Option QuantMetadata) : Except DlpClscErr Int := do
  runRules (sizeRules args)
  runRules
    [⟨decide (dlpParamMapCharToLpmatType args.matType ≠ .bMatrix),
      .notSupported⟩]
  let _ ← queryCntx around .bf16bf16f32of32 dlpGetPackbBf16bf16f32of32MinNR 2
    metadata
  let nReorder := if args.n = 1 then 1 else mdMakeMultipleOfN args.n 16
  let kReorder := if args.n = 1 then args.k else mdMakeMultipleOfN args.k 2
  sizeOr (dlpReorderSizeBytes kReorder nReorder 2 0)

/-! ## The layouts -/

/-- The parts of a reordered buffer: the packed weights, the bytes up to the
next aligned address, and the words of the column sums. -/
structure BufferParts where
  weightBytes : Nat
  gap : Nat
  sumWords : Nat
  deriving DecidableEq, Repr

/-- The bytes of a buffer. -/
def BufferParts.bytes (parts : BufferParts) : Nat :=
  parts.weightBytes + parts.gap + 4 * parts.sumWords

/-- The tight int8 column: its sums start at the next aligned byte. -/
def columnParts (k sumWords : Nat) : BufferParts where
  weightBytes := k
  gap := dlpGemmColSumByteOffset k - k
  sumWords := sumWords

/-- The buffer of the int8 reorder. -/
def s8Parts (n k : Nat) : BufferParts :=
  if n = 1 then columnParts k 1
  else ⟨packBColumnSum n k, 0, dlpMakeMultipleOfN n 16⟩

/-- The words of column sums that the sym-quant reorders clear and fill. -/
def symQuantSumWords (table : DlpGemmBlockSize) (groupSize n k : Nat) : Nat :=
  dlpGemmSymQuantSumVectors (reorderBlksz table groupSize k).KC groupSize k *
    dlpMakeMultipleOfN n 16

/-- The buffer of the sym-quant reorder. -/
def symQuantParts (table : DlpGemmBlockSize) (groupSize n k : Nat) :
    BufferParts :=
  if WritesColumn table.KC groupSize n k then
    columnParts k (k / groupSize)
  else ⟨packBColumnSum n k, 0, symQuantSumWords table groupSize n k⟩

/-- The buffer of the int4 reorder. -/
def s4Parts (table : DlpGemmBlockSize) (groupSize n k : Nat) : BufferParts :=
  if WritesColumn table.KC groupSize n k then
    columnParts k (k / groupSize)
  else ⟨compactWeightBytes n k, 0, symQuantSumWords table groupSize n k⟩

/-- The buffer of the BF16 reorder. -/
def bf16Parts (n k : Nat) : BufferParts :=
  if n = 1 then ⟨2 * k, 0, 0⟩
  else ⟨2 * (roundUp n 16 * roundUp k 2), 0, 0⟩

/-- A query that succeeds returns the bytes of the buffer; the other replies
are zero with a code. -/
def ExactOrRefused (reply : Except DlpClscErr Int) (parts : BufferParts) :
    Prop :=
  ∀ size, reply = .ok size → size = parts.bytes

/-- A quantised query that succeeds has read a group size, and returns the
bytes of the buffer for it. -/
def QuantExactOrRefused (reply : Except DlpClscErr Int)
    (metadata : Option QuantMetadata) (k : Int) (parts : Nat → BufferParts) :
    Prop :=
  ∀ size, reply = .ok size → ∃ groupSize : Nat,
    dlpGetSymQuantGroupSizeFromMetadata metadata k = .ok (groupSize : Int) ∧
      size = (parts groupSize).bytes

/-! ## No operation leaves its word -/

/-- A dimension that the checks accept. -/
def Accepted (dim : Nat) : Prop :=
  0 < dim ∧ dim ≤ 2147483647

theorem makeMultiple_eq_roundUp {block : Nat} (positive : 0 < block)
    (value : Nat) : dlpMakeMultipleOfN value block = roundUp value block := by
  unfold dlpMakeMultipleOfN roundUp
  rw [if_neg positive.ne']

theorem mdMakeMultipleOfN_natCast {value block : Nat} (accepted : Accepted value)
    (positive : 0 < block) (small : block ≤ 16) :
    mdMakeMultipleOfN value block = (roundUp value block : Nat) := by
  unfold mdMakeMultipleOfN
  rw [if_neg (by omega)]
  rcases accepted with ⟨-, bounded⟩
  exact wordRoundUp_natCast positive (by norm_num; omega)

theorem roundUp_le_of_accepted {value block : Nat} (accepted : Accepted value)
    (divides : block ∣ 2147483648) (positive : 0 < block) :
    roundUp value block ≤ 2147483648 :=
  roundUp_le_of_dvd positive divides (by
    rcases accepted with ⟨-, bounded⟩
    omega)

theorem mszT_natCast {value : Nat} (fits : value < 18446744073709551616) :
    mszT value = value :=
  unsignedWord_natCast (by norm_num; exact fits)

theorem mdT_natCast {value : Nat} (fits : value < 9223372036854775808) :
    mdT value = value :=
  signedWord_natCast (by norm_num; omega)

theorem mdColSumByteOffset_natCast {k : Nat} (accepted : Accepted k) :
    mdColSumByteOffset k = (dlpGemmColSumByteOffset k : Nat) := by
  have bounded := accepted.2
  unfold mdColSumByteOffset dlpGemmColSumByteOffset
  rw [mul_one, mdT_natCast (by omega), makeMultiple_eq_roundUp (by decide)]
  exact mdMakeMultipleOfN_natCast accepted (by decide) (by decide)

theorem wordCeilDiv_accepted {k gs : Nat} (accepted : Accepted k)
    (positive : 0 < gs) (le : gs ≤ 2147483647) :
    wordCeilDiv 64 k gs = ((k + gs - 1) / gs : Nat) := by
  have bounded := accepted.2
  exact wordCeilDiv_natCast positive (by norm_num; omega)

theorem mdAlignKcToGroup_natCast {kc groupSize : Nat} (small : kc ≤ 4096) :
    mdAlignKcToGroup kc groupSize =
      (dlpGemmAlignKcToGroup kc groupSize : Nat) := by
  have below := Nat.div_mul_le_self kc groupSize
  unfold mdAlignKcToGroup dlpGemmAlignKcToGroup
  rw [Int.tdiv_eq_ediv_of_nonneg (Int.natCast_nonneg kc),
    Int.tmod_eq_emod_of_nonneg (Int.natCast_nonneg kc), ← Int.natCast_ediv,
    ← Int.natCast_emod, ← Nat.cast_mul, mdT_natCast (by omega)]
  split_ifs <;> first | rfl | omega

/-- The aligned block of a table is no longer than the table or the group. -/
theorem alignKc_le (kc groupSize : Nat) :
    dlpGemmAlignKcToGroup kc groupSize ≤ max kc groupSize := by
  have below := Nat.div_mul_le_self kc groupSize
  unfold dlpGemmAlignKcToGroup
  split_ifs <;> omega

theorem mdSymQuantSumVectors_natCast {kc groupSize k : Nat}
    (accepted : Accepted k) (kc_pos : 0 < kc) (kc_le : kc ≤ 2147483647)
    (group : LegalGroup groupSize k) :
    mdSymQuantSumVectors kc groupSize k =
      (dlpGemmSymQuantSumVectors kc groupSize k : Nat) := by
  have positive := accepted.1
  have bounded := accepted.2
  unfold mdSymQuantSumVectors dlpGemmSymQuantSumVectors
  rw [normalised_of_le group.pos group.le]
  have kept : ¬ ((groupSize : Int) = 0 ∨ (k : Int) < groupSize) := by
    have := group.pos
    have := group.le
    omega
  dsimp only
  rw [if_neg kept, wordCeilDiv_accepted accepted kc_pos kc_le,
    wordCeilDiv_accepted accepted group.pos (group.le.trans bounded)]
  split_ifs <;> first | rfl | omega

/-- Units of at least four rows. -/
theorem ceilDiv_le_quarter {k unit : Nat} (four : 4 ≤ unit) :
    (k + unit - 1) / unit ≤ (k + 3) / 4 := by
  have rows : k ≤ 4 * ((k + 3) / 4) := by omega
  have more := Nat.mul_le_mul_right ((k + 3) / 4) four
  rw [← Nat.lt_succ_iff, Nat.div_lt_iff_lt_mul (by omega), Nat.succ_mul,
    Nat.mul_comm _ unit]
  omega

theorem sumVectors_le {kc groupSize k : Nat} (accepted : Accepted k)
    (four : 4 ≤ kc) (group : LegalGroup groupSize k) :
    dlpGemmSymQuantSumVectors kc groupSize k ≤ 536870912 := by
  have bounded := accepted.2
  have quarter : (k + 3) / 4 ≤ 536870912 := by omega
  unfold dlpGemmSymQuantSumVectors
  rw [normalised_of_le group.pos group.le]
  dsimp only
  split_ifs with single
  · exact (ceilDiv_le_quarter four).trans quarter
  · have several : groupSize ≠ k := fun whole =>
      single ⟨accepted.1, whole⟩
    have divides := group.whole_or_dvd.resolve_left several
    exact (ceilDiv_le_quarter
      (Nat.le_of_dvd group.pos divides)).trans quarter

/-! ## The tight column -/

theorem columnParts_bytes (k sumWords : Nat) :
    (columnParts k sumWords).bytes =
      dlpGemmColSumByteOffset k + 4 * sumWords := by
  have above : k ≤ dlpGemmColSumByteOffset k := by
    unfold dlpGemmColSumByteOffset
    rw [makeMultiple_eq_roundUp (by decide)]
    exact le_roundUp (by decide) k
  unfold columnParts BufferParts.bytes
  dsimp only
  omega

theorem colSumByteOffset_le {k : Nat} (accepted : Accepted k) :
    dlpGemmColSumByteOffset k ≤ 2147483648 := by
  unfold dlpGemmColSumByteOffset
  rw [makeMultiple_eq_roundUp (by decide)]
  exact roundUp_le_of_accepted accepted (by decide) (by decide)

theorem columnSize_natCast {k words : Nat} (accepted : Accepted k)
    (bounded : words ≤ 2147483648) :
    columnSize k words = ((columnParts k words).bytes : Nat) := by
  have offset := colSumByteOffset_le accepted
  have product : ((words : Int) * 4) = ((words * 4 : Nat) : Int) := by
    rw [Nat.cast_mul]
    rfl
  unfold columnSize
  rw [mdColSumByteOffset_natCast accepted, mszT_natCast (by omega),
    mszT_natCast (by omega), product, mszT_natCast (by omega),
    ← Nat.cast_add, mszT_natCast (by omega), columnParts_bytes,
    mul_comm words 4]

/-- The gate of a query is the one of the reorder. -/
theorem columnGate_iff (kc groupSize n k : Nat) :
    columnGate (dlpGemmAlignKcToGroup kc groupSize : Nat) groupSize n k =
      true ↔ WritesColumn kc groupSize n k := by
  unfold columnGate WritesColumn
  rw [Int.tmod_eq_emod_of_nonneg (Int.natCast_nonneg _),
    Int.tmod_eq_emod_of_nonneg (Int.natCast_nonneg _), ← Int.natCast_emod,
    ← Int.natCast_emod]
  simp only [Bool.and_eq_true, decide_eq_true_eq, and_assoc,
    Nat.cast_eq_one, Nat.cast_eq_zero]

/-! ## The padded layouts -/

theorem nReorder_eq {n : Nat} (accepted : Accepted n) :
    mdMakeMultipleOfN n 16 = (dlpMakeMultipleOfN n 16 : Nat) := by
  rw [makeMultiple_eq_roundUp (by decide)]
  exact mdMakeMultipleOfN_natCast accepted (by decide) (by decide)

theorem kReorder_eq {k : Nat} (accepted : Accepted k) :
    mdMakeMultipleOfN k 4 = (dlpMakeMultipleOfN k 4 : Nat) := by
  rw [makeMultiple_eq_roundUp (by decide)]
  exact mdMakeMultipleOfN_natCast accepted (by decide) (by decide)

/-- The padded extents and their product fit a word with room to spare. -/
theorem weights_le {n k : Nat} (columns : Accepted n) (rows : Accepted k) :
    dlpMakeMultipleOfN n 16 ≤ 2147483648 ∧
      dlpMakeMultipleOfN k 4 ≤ 2147483648 ∧
      packBColumnSum n k ≤ 4611686018427387904 := by
  unfold packBColumnSum
  rw [makeMultiple_eq_roundUp (by decide),
    makeMultiple_eq_roundUp (by decide)]
  have across := @roundUp_le_of_accepted n 16 columns (by decide)
    (by decide)
  have down := @roundUp_le_of_accepted k 4 rows (by decide) (by decide)
  exact ⟨across, down, Nat.mul_le_mul across down⟩

/-- A checked size that fits is exact. -/
theorem dlpReorderSizeBytes_natCast {rows cols elemSz extra : Nat}
    (elem_pos : 0 < elemSz)
    (fits : rows * cols * elemSz + extra ≤ 18446744073709551615)
    (rows_le : rows ≤ 18446744073709551615)
    (cols_le : cols ≤ 18446744073709551615)
    (elem_le : elemSz ≤ 18446744073709551615) :
    dlpReorderSizeBytes rows cols elemSz extra =
      some ((rows * cols * elemSz + extra : Nat) : Int) := by
  have product : rows * cols ≤ rows * cols * elemSz :=
    Nat.le_mul_of_pos_right _ elem_pos
  have first : dlpReorderCheckedMulMsz rows cols =
      some ((rows * cols : Nat) : Int) :=
    @checkedMul_natCast 18446744073709551615 rows cols (by omega)
  have second : dlpReorderCheckedMulMsz ((rows * cols : Nat) : Int) elemSz =
      some ((rows * cols * elemSz : Nat) : Int) :=
    @checkedMul_natCast 18446744073709551615 (rows * cols) elemSz (by omega)
  unfold dlpReorderSizeBytes
  rw [if_neg (by omega), mszT_natCast (by omega), mszT_natCast (by omega),
    mszT_natCast (by omega), first, Option.bind_eq_bind, Option.bind_some,
    second, Option.bind_some, if_neg]
  · rw [← Nat.cast_add]
  · unfold dlpMszMax
    omega

theorem sizeOr_ok {size : Option Int} {value : Int}
    (succeeds : sizeOr size = .ok value) : size = some value := by
  cases size with
  | none => cases succeeds
  | some found =>
      cases succeeds
      rfl

/-- Dimensions that the check of a query lets through. -/
theorem accepted_of_check {args : SizeArgs}
    (accepts : runRules (sizeRules args) = .ok ()) :
    ∃ n k : Nat, args.n = n ∧ args.k = k ∧ Accepted n ∧ Accepted k := by
  have rules := (runRules_ok_iff _).mp accepts
  simp only [sizeRules, List.forall_mem_cons, badDim_eq_false_iff] at rules
  rcases rules with ⟨-, -, -, ⟨k_pos, k_le⟩, ⟨n_pos, n_le⟩, -⟩
  rcases Int.eq_ofNat_of_zero_le k_pos.le with ⟨k, stated⟩
  rcases Int.eq_ofNat_of_zero_le n_pos.le with ⟨n, stated2⟩
  unfold dlpMaxGemmDim at k_le n_le
  exact ⟨n, k, stated2, stated, ⟨by omega, by omega⟩, ⟨by omega, by omega⟩⟩

/-- The int8 query. -/
theorem s8_exact (around : Around) (args : SizeArgs)
    (metadata : Option QuantMetadata) :
    ExactOrRefused (aoclGetReorderBufSizeS8s8s32os32 around args metadata)
      (s8Parts args.n.toNat args.k.toNat) := by
  intro size succeeds
  unfold aoclGetReorderBufSizeS8s8s32os32 at succeeds
  rcases bind_ok succeeds with ⟨_, accepts, succeeds⟩
  rcases bind_ok succeeds with ⟨_, -, succeeds⟩
  rcases bind_ok succeeds with ⟨_, -, succeeds⟩
  rcases accepted_of_check accepts with ⟨n, k, columns, rows, nOk, kOk⟩
  rw [columns, rows] at succeeds ⊢
  rw [Int.toNat_natCast, Int.toNat_natCast]
  unfold s8Parts
  by_cases single : n = 1
  · rw [if_pos (by omega)] at succeeds
    have offset := colSumByteOffset_le kOk
    have total : mszT ((dlpGemmColSumByteOffset k + 4 : Nat) : Int) =
        ((dlpGemmColSumByteOffset k + 4 : Nat) : Int) :=
      mszT_natCast (by omega)
    have value := Except.ok.inj succeeds
    rw [mdColSumByteOffset_natCast kOk, mszT_natCast (by omega)] at value
    rw [if_pos single, columnParts_bytes, ← value]
    exact total
  · rw [if_neg (by omega)] at succeeds
    rcases bind_ok succeeds with ⟨extra, words, succeeds⟩
    rcases weights_le nOk kOk with ⟨across, down, image⟩
    rw [nReorder_eq nOk, mszT_natCast (by omega)] at words
    have words_eq : dlpReorderCheckedMulMsz
        ((dlpMakeMultipleOfN n 16 : Nat) : Int) 4 =
          some ((dlpMakeMultipleOfN n 16 * 4 : Nat) : Int) :=
      @checkedMul_natCast 18446744073709551615 (dlpMakeMultipleOfN n 16) 4
        (by omega)
    rw [words_eq] at words
    cases words
    have size_eq := sizeOr_ok succeeds
    rw [nReorder_eq nOk, kReorder_eq kOk] at size_eq
    unfold packBColumnSum at image
    rw [mul_comm] at image
    have total := @dlpReorderSizeBytes_natCast (dlpMakeMultipleOfN k 4)
      (dlpMakeMultipleOfN n 16) 1 (dlpMakeMultipleOfN n 16 * 4) (by decide)
      (by omega) (by omega) (by omega) (by decide)
    have value := Option.some.inj (total.symm.trans size_eq)
    have counts : dlpMakeMultipleOfN k 4 * dlpMakeMultipleOfN n 16 * 1 +
        dlpMakeMultipleOfN n 16 * 4 =
          dlpMakeMultipleOfN n 16 * dlpMakeMultipleOfN k 4 + 0 +
            4 * dlpMakeMultipleOfN n 16 := by
      ring
    rw [if_neg single, ← value, counts]
    rfl

/-- The extents that the BF16 query multiplies. -/
def bf16Extents (n k : Int) : Int × Int :=
  (if n = 1 then k else mdMakeMultipleOfN k 2,
    if n = 1 then 1 else mdMakeMultipleOfN n 16)

/-- The checked product of the BF16 query never overflows. -/
theorem bf16_size {n k : Nat} (nOk : Accepted n) (kOk : Accepted k) :
    dlpReorderSizeBytes (bf16Extents n k).1 (bf16Extents n k).2 2 0 =
      some ((bf16Parts n k).bytes : Int) := by
  have bounded := kOk.2
  unfold bf16Extents bf16Parts
  by_cases single : n = 1
  · have total := @dlpReorderSizeBytes_natCast k 1 2 0 (by decide) (by omega)
      (by omega) (by decide) (by decide)
    have counts : k * 1 * 2 + 0 = 2 * k + 0 + 4 * 0 := by ring
    rw [if_pos (by omega), if_pos (by omega), if_pos single]
    rw [counts] at total
    exact total
  · have across := @roundUp_le_of_accepted n 16 nOk (by decide)
      (by decide)
    have down := @roundUp_le_of_accepted k 2 kOk (by decide)
      (by decide)
    have depth : mdMakeMultipleOfN k 2 = (roundUp k 2 : Nat) :=
      mdMakeMultipleOfN_natCast kOk (by decide) (by decide)
    have image := Nat.mul_le_mul down across
    have total := @dlpReorderSizeBytes_natCast (roundUp k 2) (roundUp n 16) 2
      0 (by decide) (by omega) (by omega) (by omega) (by decide)
    have counts : roundUp k 2 * roundUp n 16 * 2 + 0 =
        2 * (roundUp n 16 * roundUp k 2) + 0 + 4 * 0 := by
      ring
    rw [if_neg (by omega), if_neg (by omega), nReorder_eq nOk, depth,
      makeMultiple_eq_roundUp (by decide), if_neg single]
    rw [counts] at total
    exact total

/-- The BF16 query. -/
theorem bf16_exact (around : Around) (args : SizeArgs)
    (metadata : Option QuantMetadata) :
    ExactOrRefused (aoclGetReorderBufSizeBf16bf16f32of32 around args metadata)
      (bf16Parts args.n.toNat args.k.toNat) := by
  intro size succeeds
  unfold aoclGetReorderBufSizeBf16bf16f32of32 at succeeds
  rcases bind_ok succeeds with ⟨_, accepts, succeeds⟩
  rcases bind_ok succeeds with ⟨_, -, succeeds⟩
  rcases bind_ok succeeds with ⟨_, -, succeeds⟩
  rcases accepted_of_check accepts with ⟨n, k, columns, rows, nOk, kOk⟩
  have size_eq := sizeOr_ok succeeds
  rw [columns, rows] at size_eq ⊢
  rw [Int.toNat_natCast, Int.toNat_natCast]
  exact Option.some.inj (size_eq.symm.trans (bf16_size nOk kOk))

/-! ## The quantised queries -/

theorem legalGroup_of_reads {metadata : Option QuantMetadata} {k : Nat}
    {groupSize : Int}
    (reads : dlpGetSymQuantGroupSizeFromMetadata metadata k =
      .ok groupSize) :
    ∃ gs : Nat, groupSize = gs ∧ LegalGroup gs k := by
  cases metadata with
  | none => cases reads
  | some metadata =>
      rcases bind_ok reads with ⟨_, accepted, rest⟩
      have accepts := (runRules_ok_iff _).mp accepted
      have settled := Except.ok.inj rest
      rw [settled] at accepts
      simp only [List.forall_mem_cons, Bool.or_eq_false_iff,
        Bool.and_eq_false_iff, decide_eq_false_iff_not, not_not, not_lt,
        not_le] at accepts
      rcases accepts with ⟨-, -, ⟨positive, le⟩, multiple, -⟩
      rcases Int.eq_ofNat_of_zero_le positive.le with ⟨gs, rfl⟩
      exact ⟨gs, rfl, by omega, by omega, by omega⟩

/-- The blocks that every processor installs for int8. -/
theorem s8_table_KC (around : Around) :
    2048 ≤ (around.table .s8s8s32os32).KC ∧
      (around.table .s8s8s32os32).KC ≤ 4096 := by
  unfold Around.table dlpGemmCntxInitBlkszMap withZen3Override
  split_ifs <;> decide

/-- What a quantised query computes with. -/
structure QuantSized (around : Around) (args : SizeArgs) (gs n k : Nat) :
    Prop where
  columns : args.n = n
  rows : args.k = k
  nOk : Accepted n
  kOk : Accepted k
  group : LegalGroup gs k

theorem quantSized_of_ok {around : Around} {args : SizeArgs}
    {metadata : Option QuantMetadata} {groupSize : Int}
    (reads : quantQuery around args metadata = .ok groupSize) :
    ∃ gs n k : Nat, groupSize = gs ∧ QuantSized around args gs n k := by
  rcases bind_ok reads with ⟨_, -, reads⟩
  rcases bind_ok reads with ⟨_, accepts, reads⟩
  rcases bind_ok reads with ⟨_, -, reads⟩
  rcases accepted_of_check accepts with ⟨n, k, columns, rows, nOk, kOk⟩
  rw [rows] at reads
  rcases legalGroup_of_reads reads with ⟨gs, rfl, group⟩
  exact ⟨gs, n, k, rfl, columns, rows, nOk, kOk, group⟩

/-- The size of the tight column. -/
theorem columnSize_exact {gs k : Nat} (kOk : Accepted k)
    (group : LegalGroup gs k) (divides : k % gs = 0) :
    columnSize k (wordCeilDiv 64 k gs) =
      ((columnParts k (k / gs)).bytes : Nat) := by
  have bounded := kOk.2
  have below := Nat.div_le_self k gs
  have groups : (k + gs - 1) / gs = k / gs := by
    have rest := Nat.div_add_mod k gs
    rw [divides, Nat.add_zero, Nat.mul_comm] at rest
    have positive := group.pos
    rw [Nat.div_eq_iff positive]
    omega
  rw [wordCeilDiv_accepted kOk group.pos (group.le.trans bounded), groups]
  exact columnSize_natCast kOk (by omega)

/-- The words of column sums, in the order of multiplication of both
queries. -/
theorem sumWords_le {gs n k : Nat} (nOk : Accepted n)
    (kOk : Accepted k) (group : LegalGroup gs k) {KC : Nat} (four : 4 ≤ KC) :
    dlpGemmSymQuantSumVectors KC gs k * dlpMakeMultipleOfN n 16 ≤
      1152921504606846976 :=
  Nat.mul_le_mul (sumVectors_le kOk four group)
    (weights_le nOk kOk).1

/-- The block of the reorder is at least four rows long. -/
theorem four_le_reorderKC {table : DlpGemmBlockSize} {gs k : Nat}
    (group : LegalGroup gs k) (long : 4 ≤ table.KC) :
    4 ≤ (reorderBlksz table gs k).KC := by
  unfold reorderBlksz
  dsimp only
  split_ifs with several
  · have divides := group.whole_or_dvd.resolve_left several
    have positive := alignKc_pos group.pos (by omega : 0 < table.KC)
    exact Nat.le_of_dvd positive (divides.trans (dvd_alignKc table.KC gs))
  · exact long

/-- The vectors of a quantised reorder do not depend on which of the two
blocks counts them. -/
theorem sumVectors_reorder (table : DlpGemmBlockSize) {gs k : Nat}
    (group : LegalGroup gs k) :
    dlpGemmSymQuantSumVectors table.KC gs k =
      dlpGemmSymQuantSumVectors (reorderBlksz table gs k).KC gs k := by
  unfold dlpGemmSymQuantSumVectors reorderBlksz
  rw [normalised_of_le group.pos group.le]
  dsimp only
  split_ifs <;> first | rfl | omega

/-- The packed weights of both quantised queries. -/
theorem weights_natCast {n k : Nat} (nOk : Accepted n) (kOk : Accepted k) :
    mszT (mszT (1 * mszT (mdMakeMultipleOfN k 4)) *
      mszT (mdMakeMultipleOfN n 16)) = (packBColumnSum n k : Nat) := by
  rcases weights_le nOk kOk with ⟨across, down, image⟩
  have product : ((dlpMakeMultipleOfN k 4 : Nat) : Int) *
      (dlpMakeMultipleOfN n 16 : Nat) = (packBColumnSum n k : Nat) := by
    rw [packBColumnSum, Nat.cast_mul, mul_comm]
  rw [kReorder_eq kOk, nReorder_eq nOk, mszT_natCast (by omega), one_mul,
    mszT_natCast (by omega), mszT_natCast (by omega), product,
    mszT_natCast (by omega)]

/-- The words times four, in unsigned words. -/
theorem wordBytes_natCast {words : Nat} (small : words ≤ 1152921504606846976) :
    mszT ((words : Int) * 4) = (4 * words : Nat) := by
  have product : (words : Int) * 4 = (4 * words : Nat) := by
    rw [Nat.cast_mul, mul_comm]
    rfl
  rw [product, mszT_natCast (by omega)]

/-- A quantised query returns no other group size than the reorder reads. -/
theorem quantQuery_reads {around : Around} {args : SizeArgs}
    {metadata : Option QuantMetadata} {groupSize : Int}
    (query : quantQuery around args metadata = .ok groupSize) :
    dlpGetSymQuantGroupSizeFromMetadata metadata args.k = .ok groupSize := by
  rcases bind_ok query with ⟨_, -, query⟩
  rcases bind_ok query with ⟨_, -, query⟩
  rcases bind_ok query with ⟨_, -, query⟩
  exact query

/-- The sym-quant query. -/
theorem symQuant_exact (around : Around) (args : SizeArgs)
    (metadata : Option QuantMetadata) :
    QuantExactOrRefused
      (aoclGetReorderBufSizeS8s8s32os32SymQuant around args metadata)
      metadata args.k fun groupSize =>
        symQuantParts (around.table .s8s8s32os32) groupSize args.n.toNat
          args.k.toNat := by
  intro size succeeds
  rcases bind_ok succeeds with ⟨found, query, succeeds⟩
  rcases quantSized_of_ok query with ⟨gs, n, k, rfl, sized⟩
  refine ⟨gs, quantQuery_reads query, ?_⟩
  rcases sized with ⟨columns, rows, nOk, kOk, group⟩
  have table := s8_table_KC around
  dsimp only at succeeds ⊢
  generalize around.table .s8s8s32os32 = tableBlksz at table succeeds ⊢
  rw [columns, rows] at succeeds ⊢
  rw [Int.toNat_natCast, Int.toNat_natCast]
  rw [mdAlignKcToGroup_natCast table.2] at succeeds
  unfold symQuantParts
  by_cases column : WritesColumn tableBlksz.KC gs n k
  · rw [if_pos ((columnGate_iff _ _ _ _).mpr column)] at succeeds
    rw [if_pos column, ← Except.ok.inj succeeds]
    exact columnSize_exact kOk group column.2.1
  · rw [if_neg (fun gate => column ((columnGate_iff _ _ _ _).mp gate))]
      at succeeds
    have long := four_le_reorderKC group (by omega : 4 ≤ tableBlksz.KC)
    have short : (reorderBlksz tableBlksz gs k).KC ≤ 2147483647 := by
      have := alignKc_le tableBlksz.KC gs
      have := group.le.trans kOk.2
      unfold reorderBlksz
      dsimp only
      split_ifs <;> omega
    have block : (if (gs : Int) = k then (tableBlksz.KC : Int)
        else (dlpGemmAlignKcToGroup tableBlksz.KC gs : Nat)) =
          ((reorderBlksz tableBlksz gs k).KC : Nat) := by
      unfold reorderBlksz
      dsimp only
      split_ifs <;> first | rfl | omega
    have words := sumWords_le nOk kOk group long
    have weights := (weights_le nOk kOk).2.2
    rw [block, mdSymQuantSumVectors_natCast kOk (by omega) short group,
      weights_natCast nOk kOk, nReorder_eq nOk, ← Nat.cast_mul,
      mdT_natCast (by omega), mszT_natCast (by omega),
      wordBytes_natCast words, ← Nat.cast_add, mszT_natCast (by omega)]
      at succeeds
    rw [if_neg column, ← Except.ok.inj succeeds]
    rfl

/-- The int4 query. -/
theorem s4_exact (around : Around) (args : SizeArgs)
    (metadata : Option QuantMetadata) :
    QuantExactOrRefused
      (aoclGetReorderBufSizeS8s4s32os32 around args metadata)
      metadata args.k fun groupSize =>
        s4Parts (around.table .s8s8s32os32) groupSize args.n.toNat
          args.k.toNat := by
  intro size succeeds
  rcases bind_ok succeeds with ⟨found, query, succeeds⟩
  rcases quantSized_of_ok query with ⟨gs, n, k, rfl, sized⟩
  refine ⟨gs, quantQuery_reads query, ?_⟩
  rcases sized with ⟨columns, rows, nOk, kOk, group⟩
  have table := s8_table_KC around
  dsimp only at succeeds ⊢
  generalize around.table .s8s8s32os32 = tableBlksz at table succeeds ⊢
  rw [columns, rows] at succeeds ⊢
  rw [Int.toNat_natCast, Int.toNat_natCast]
  rw [mdAlignKcToGroup_natCast table.2] at succeeds
  unfold s4Parts
  by_cases column : WritesColumn tableBlksz.KC gs n k
  · rw [if_pos ((columnGate_iff _ _ _ _).mpr column)] at succeeds
    rw [if_pos column, ← Except.ok.inj succeeds]
    exact columnSize_exact kOk group column.2.1
  · rw [if_neg (fun gate => column ((columnGate_iff _ _ _ _).mp gate))]
      at succeeds
    have words := sumWords_le nOk kOk group (by omega : 4 ≤ tableBlksz.KC)
    have vectors := sumVectors_le kOk (by omega : 4 ≤ tableBlksz.KC) group
    rcases weights_le nOk kOk with ⟨across, -, weights⟩
    have halved : ((packBColumnSum n k : Nat) : Int) / 2 =
        (compactWeightBytes n k : Nat) := by
      rw [compactWeightBytes, Nat.mul_comm, ← packBColumnSum]
      omega
    have half_le : compactWeightBytes n k ≤ packBColumnSum n k := by
      rw [compactWeightBytes, Nat.mul_comm, ← packBColumnSum]
      omega
    rw [mdSymQuantSumVectors_natCast kOk (by omega) (by omega) group,
      weights_natCast nOk kOk, nReorder_eq nOk, halved,
      mszT_natCast (by omega), mszT_natCast (by omega), ← Nat.cast_mul,
      mszT_natCast (by omega), wordBytes_natCast words, ← Nat.cast_add,
      mszT_natCast (by omega)] at succeeds
    rw [if_neg column, ← Except.ok.inj succeeds, symQuantSumWords,
      ← sumVectors_reorder tableBlksz group]
    rfl

/--
Each of the four queries refuses with a code or returns the unbounded byte
count of its buffer, whatever the dimensions, the metadata and the processor.
-/
theorem reorder_sizes_exact_or_refused (around : Around) (args : SizeArgs)
    (metadata : Option QuantMetadata) :
    ExactOrRefused (aoclGetReorderBufSizeS8s8s32os32 around args metadata)
        (s8Parts args.n.toNat args.k.toNat) ∧
      QuantExactOrRefused
        (aoclGetReorderBufSizeS8s8s32os32SymQuant around args metadata)
        metadata args.k (fun groupSize =>
          symQuantParts (around.table .s8s8s32os32) groupSize args.n.toNat
            args.k.toNat) ∧
      QuantExactOrRefused
        (aoclGetReorderBufSizeS8s4s32os32 around args metadata)
        metadata args.k (fun groupSize =>
          s4Parts (around.table .s8s8s32os32) groupSize args.n.toNat
            args.k.toNat) ∧
      ExactOrRefused
        (aoclGetReorderBufSizeBf16bf16f32of32 around args metadata)
        (bf16Parts args.n.toNat args.k.toNat) :=
  ⟨s8_exact around args metadata, symQuant_exact around args metadata,
    s4_exact around args metadata, bf16_exact around args metadata⟩

/-- A processor of the Zen5 generation. -/
def zen5Around : Around where
  processor := ⟨false, true, true, true, true, .zen5, false⟩
  supThres := ⟨0, 0, 0⟩

/-- The largest dimensions that the checks let through. -/
example : aoclGetReorderBufSizeBf16bf16f32of32 zen5Around
    ⟨'r', 'n', 'b', 2147483647, 2147483647⟩ none =
      .ok 9223372036854775808 := by
  decide

end AoclDlp.Api.ReorderSize
