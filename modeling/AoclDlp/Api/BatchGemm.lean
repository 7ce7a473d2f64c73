import AoclDlp.Api.F32Gemm
import AoclDlp.DecisionEngine.PanelAgreement
import AoclDlp.Foundations.Batch

/-!
# The batch entry points and their reports

A batch call runs groups of GEMMs of one shape each.  The matrices of all
groups stand in flat arrays, and a running index tells a group where its own
begin; the loop checks a group, settles its context, hands it to the threading
decorator and leaves the batch at the first group it cannot run.

The F32, S8S8 and BF16 entry points report skipped groups in three ways.  F32
writes a failure into every metadata before the loop, S8S8 writes one into the
metadata behind the group that failed, and BF16 writes nothing there.

A metadata pointer is never NULL here, but two groups may share one object;
a code of none is `DLP_CLSC_SUCCESS`.
-/

namespace AoclDlp.Api.BatchGemm

open AoclDlp.Api.F32Gemm
open AoclDlp.Api.GemmCheck
open AoclDlp.Config.BlockSize
open AoclDlp.Config.LocalContext
open AoclDlp.DecisionEngine.KernelInit
open AoclDlp.DecisionEngine.PanelAgreement
open AoclDlp.DecisionEngine.ShapeModel
open AoclDlp.Foundations.Batch

/-! ## The arguments -/

/--
The arguments of a batch.  `entry` maps a group to its metadata object,
`metadata` an object to its content; `nullArgs` says that one of the other
arrays is NULL, and `postOps` is the outcome of the post-op translation.
-/
structure BatchArgs where
  nullArgs : Bool
  order : Nat → Char
  transa : Nat → Char
  transb : Nat → Char
  m : Nat → Int
  n : Nat → Int
  k : Nat → Int
  aIsNull : Nat → Bool
  lda : Nat → Int
  bIsNull : Nat → Bool
  ldb : Nat → Int
  cIsNull : Nat → Bool
  ldc : Nat → Int
  groupCount : Nat
  groupSize : Nat → Int
  memFormatA : Nat → Char
  memFormatB : Nat → Char
  entry : Nat → Nat
  metadata : Nat → DlpMetadata
  postOps : Nat → Except DlpClscErr Unit

namespace BatchArgs

/-- What the check reads of a group; its pointers stand at the group index. -/
def groupArgs (batch : BatchArgs) (group : Nat) : GemmArgs where
  order := batch.order group
  transa := batch.transa group
  transb := batch.transb group
  m := batch.m group
  n := batch.n group
  k := batch.k group
  aIsNull := batch.aIsNull group
  lda := batch.lda group
  memFormatA := batch.memFormatA group
  bIsNull := batch.bIsNull group
  ldb := batch.ldb group
  memFormatB := batch.memFormatB group
  cIsNull := batch.cIsNull group
  ldc := batch.ldc group

/-- The content of the metadata of a group. -/
def groupMetadata (batch : BatchArgs) (group : Nat) : DlpMetadata :=
  batch.metadata (batch.entry group)

/-- The number of matrices of a group. -/
def matrices (batch : BatchArgs) (group : Nat) : Nat :=
  (batch.groupSize group).toNat

/-- The flat index of the first matrix of a group. -/
def flatStart (batch : BatchArgs) (group : Nat) : Nat :=
  ∑ earlier ∈ Finset.range group, batch.matrices earlier

end BatchArgs

/-! ## The checks of a group -/

/-- The rules of `AOCL_DLP_BATCH_GEMM_CHECK`. -/
def batchRules (groupCountIdx groupSize : Int) (args : GemmArgs) :
    List Rule :=
  gemmRules args ++
    [⟨badDim groupSize, .invalidGroupDimension⟩,
      ⟨decide (groupCountIdx < 0) || decide (dlpMaxGemmDim < groupCountIdx),
        .invalidGroupDimension⟩]

/-- `AOCL_DLP_BATCH_GEMM_MATRIX_PTR_CHECK`. -/
def matrixPtrRule (batch : BatchArgs) (matIdx gSz : Nat) : Rule :=
  ⟨(List.range gSz).any fun index =>
      batch.aIsNull (matIdx + index) || batch.bIsNull (matIdx + index) ||
        batch.cIsNull (matIdx + index), .nullPointer⟩

/-- The two checks that open a group, and its post-op translation. -/
def openGroup (batch : BatchArgs) (groupCountIdx : Int)
    (group matIdx : Nat) : Except DlpClscErr Unit := do
  runRules (batchRules groupCountIdx (batch.groupSize group)
      (batch.groupArgs group) ++
    [matrixPtrRule batch matIdx (batch.matrices group)])
  batch.postOps group

/-- What a decorator receives, besides the flat index of the first matrix. -/
structure Dispatch where
  gSz : Nat
  ops : Operands
  k : Nat
  lcntx : DlpGemmCntx

/-! ## F32 -/

/-- The operands of an F32 group. -/
def f32BatchOperands (args : GemmArgs) : Except DlpClscErr Operands :=
  let ops := storedOperands args
  let transa := isTrans args.transa
  let transb := isTrans args.transb
  if isColumnMajor args.order then
    if ops.mtagB = .reordered ∨ ops.mtagA = .reordered then
      .error .notSupported
    else
      .ok (Operands.swap { ops with
        mtagA := packIf transa ops.mtagA
        mtagB := packIf transb ops.mtagB })
  else if ops.mtagA = .reordered then .error .notSupported
  else
    .ok { ops with
      mtagA := packIf transa ops.mtagA
      mtagB := packIf (transb && decide (ops.mtagB = .unpacked))
        ops.mtagB }

section F32

variable {Scalar : Type} [BEq Scalar] [OfNat Scalar 0]

/-- One pass of the loop of `aocl_batch_gemm_f32f32f32of32`. -/
def f32Group (around : F32Surroundings) (batch : BatchArgs)
    (beta : Nat → Scalar) (group matIdx : Nat) :
    Except DlpClscErr Dispatch := do
  openGroup batch group group matIdx
  let metadata := some (batch.groupMetadata group)
  let ops ← f32BatchOperands (batch.groupArgs group)
  let k := (batch.k group).toNat
  let lcntx ← dlpGemmUpdCntxWithMetadata
    (dlpGemmGetGlobalCntxObj around.processor around.supThres
      .f32f32f32of32) metadata
  let run ← settleF32 around (beta group) metadata ops k lcntx
  .ok ⟨batch.matrices group, ops, k, run.lcntx⟩

end F32

/-! ## S8S8 and BF16 -/

/-- What the S8S8 and the BF16 entry points find around them. -/
structure BatchSurroundings where
  engine : Engine
  supThres : DlpGemmSupThreshold
  rntm : DlpGemmThreadInfo

/-- B is packed at run time where it was not reordered. -/
def packUnpackedB (ops : Operands) : Operands :=
  { ops with mtagB := packIf (decide (ops.mtagB = .unpacked)) ops.mtagB }

/-- The operands of an S8S8 group: a packed operand that needs no transpose is
read unpacked, and column-major groups run only without metadata. -/
def s8BatchOperands (args : GemmArgs) (metadata : Option DlpMetadata) :
    Except DlpClscErr Operands :=
  let ops := storedOperands args
  let unpackIf (trans : Bool) (mtag : MemoryTag) : MemoryTag :=
    if mtag = .pack ∧ trans = false then .unpacked else mtag
  let transa := isTrans args.transa
  let transb := isTrans args.transb
  if isColumnMajor args.order then
    if metadata.isSome then .error .notSupported
    else if ops.mtagA = .reordered ∨ ops.mtagB = .reordered then
      .error .notSupported
    else
      .ok (packUnpackedB (Operands.swap { ops with
        mtagA := unpackIf false ops.mtagA
        mtagB := packIf transb ops.mtagB }))
  else if ops.mtagA = .reordered then .error .notSupported
  else
    .ok (packUnpackedB { ops with
      mtagA := packIf transa (unpackIf transa ops.mtagA) })

/-- The operands of a BF16 group. -/
def bf16BatchOperands (args : GemmArgs) : Except DlpClscErr Operands :=
  let ops := storedOperands args
  if isColumnMajor args.order then
    if ops.mtagA = .reordered ∨ ops.mtagB = .reordered then
      .error .notSupported
    else
      .ok (packUnpackedB (Operands.swap { ops with
        mtagB := packIf (isTrans args.transb) ops.mtagB }))
  else if ops.mtagA = .reordered then .error .notSupported
  else
    .ok (packUnpackedB { ops with
      mtagA := packIf (isTrans args.transa) ops.mtagA })

/-- The hint check, the inits and the validator of a group. -/
def settleGroup (around : BatchSurroundings) (backend : GemmBackend)
    (insistsOnPackB : Bool) (metadata : Option DlpMetadata)
    (ops : Operands) (k : Nat) (lcntx : DlpGemmCntx) :
    Except DlpClscErr DlpGemmCntx := do
  dlpGemmValidateHints lcntx
  let lcntx := dlpInitAndGetKernelHndl around.engine backend
    ⟨ops.m, ops.n, k, ops.rsA, ops.csB, ops.mtagA, ops.mtagB, around.rntm,
      false⟩ lcntx
  runRules [⟨!lcntx.hasKernel, .invalidJitKernel⟩]
  let lcntx := dlpInitAndGetPackbKernelHndl around.engine backend ops.n k
    ops.csB lcntx
  runRules
    [⟨insistsOnPackB && decide (1 < lcntx.blksz.NR) &&
      !lcntx.hasPackBKernel, .invalidJitKernel⟩]
  dlpGemmValidateMetadataWithLcntx lcntx metadata
  .ok lcntx

/-- One pass of the loop of `aocl_batch_gemm_s8s8s32os32`. -/
def s8Group (around : BatchSurroundings) (batch : BatchArgs)
    (group matIdx : Nat) : Except DlpClscErr Dispatch := do
  openGroup batch batch.groupCount group matIdx
  let metadata := some (batch.groupMetadata group)
  let ops ← s8BatchOperands (batch.groupArgs group) metadata
  let k := (batch.k group).toNat
  let lcntx ← dlpGemmUpdCntxWithMetadata
    (globalCntx around.engine .s8 around.supThres) metadata
  let lcntx ← settleGroup around .s8 true metadata ops k lcntx
  .ok ⟨batch.matrices group, ops, k, lcntx⟩

/-- One pass of the loop of `aocl_batch_gemm_bf16bf16f32of32`. -/
def bf16Group (around : BatchSurroundings) (batch : BatchArgs)
    (group matIdx : Nat) : Except DlpClscErr Dispatch := do
  openGroup batch batch.groupCount group matIdx
  let metadata := some (batch.groupMetadata group)
  let ops ← bf16BatchOperands (batch.groupArgs group)
  let k := (batch.k group).toNat
  let lcntx ← dlpGemmUpdCntxWithMetadata
    (globalCntx around.engine .bf16 around.supThres) metadata
  let lcntx ← settleGroup around .bf16
    around.engine.machine.processor.isAvx512Bf16Configured metadata ops k
    lcntx
  .ok ⟨batch.matrices group, ops, k, lcntx⟩

/-! ## The entry points -/

/-- The groups of a batch as jobs over the flat arrays. -/
def BatchArgs.jobs (batch : BatchArgs)
    (attempt : Nat → Nat → Except DlpClscErr Dispatch) :
    Jobs DlpClscErr Dispatch where
  count := batch.groupCount
  size := batch.matrices
  slot := batch.entry
  attempt := attempt

/-- The groups that were handed on, and the codes of the metadata objects. -/
structure BatchRun where
  handed : List (Handed Dispatch)
  codes : Nat → Option DlpClscErr

/-- The metadata of every group reports `code`. -/
def refuseAll (batch : BatchArgs) (code : DlpClscErr)
    (codes : Nat → Option DlpClscErr) : BatchRun :=
  ⟨[], markFrom batch.entry 0 batch.groupCount code codes⟩

/-- `aocl_batch_gemm_f32f32f32of32`. -/
def aoclBatchGemmF32f32f32of32 {Scalar : Type} [BEq Scalar]
    [OfNat Scalar 0] (around : F32Surroundings) (batch : BatchArgs)
    (beta : Nat → Scalar) (codes : Nat → Option DlpClscErr) : BatchRun :=
  if batch.nullArgs then refuseAll batch .nullPointer codes
  else if !around.avx2fma3 then refuseAll batch .notSupported codes
  else
    let state := (batch.jobs (f32Group around batch beta)).run false
      (markFrom batch.entry 0 batch.groupCount .failure codes)
    ⟨state.handed, state.codes⟩

/-- `aocl_batch_gemm_s8s8s32os32`. -/
def aoclBatchGemmS8s8s32os32 (around : BatchSurroundings)
    (batch : BatchArgs) (codes : Nat → Option DlpClscErr) : BatchRun :=
  if batch.nullArgs then refuseAll batch .nullPointer codes
  else if !around.engine.machine.processor.avx512vnni then
    refuseAll batch .notSupported codes
  else
    let state := (batch.jobs (s8Group around batch)).run true codes
    let firstUnprocessedGroup := match state.stopped with
      | none => batch.groupCount
      | some group => group + 1
    ⟨state.handed,
      markFrom batch.entry firstUnprocessedGroup batch.groupCount .failure
        state.codes⟩

/-- `aocl_batch_gemm_bf16bf16f32of32`. -/
def aoclBatchGemmBf16bf16f32of32 (around : BatchSurroundings)
    (batch : BatchArgs) (codes : Nat → Option DlpClscErr) : BatchRun :=
  if batch.nullArgs then refuseAll batch .nullPointer codes
  else if !around.engine.machine.processor.avx512bf16 then
    refuseAll batch .notSupported codes
  else
    let state := (batch.jobs (bf16Group around batch)).run true codes
    ⟨state.handed, state.codes⟩

/-! ## Honest reports -/

/-- A handed group received the matrices of that group. -/
def BatchArgs.Exact (batch : BatchArgs) (handed : Handed Dispatch) : Prop :=
  handed.first = batch.flatStart handed.job ∧
    handed.result.gSz = batch.matrices handed.job

/--
A metadata reports success exactly when its group was handed on with its own
matrices, the handed groups come first, and the matrices of the other groups
are not handed on.
-/
structure BatchRun.Honest (batch : BatchArgs) (run : BatchRun) : Prop where
  reports : ∀ group < batch.groupCount,
    (run.codes (batch.entry group) = none ↔
      ∃ handed ∈ run.handed, handed.job = group ∧ batch.Exact handed)
  exact_of_handed : ∀ handed ∈ run.handed, batch.Exact handed
  segment : ∃ passed ≤ batch.groupCount,
    run.handed.map Handed.job = List.range passed
  untouched : ∀ handed ∈ run.handed, ∀ group < batch.groupCount,
    (∀ other ∈ run.handed, other.job ≠ group) →
      ∀ index, handed.first ≤ index →
        index < handed.first + handed.result.gSz →
          ¬ (batch.flatStart group ≤ index ∧
            index < batch.flatStart group + batch.matrices group)

theorem honest_refuseAll (batch : BatchArgs) (code : DlpClscErr)
    (codes : Nat → Option DlpClscErr) :
    (refuseAll batch code codes).Honest batch := by
  refine ⟨?_, by simp [refuseAll], ⟨0, Nat.zero_le _, rfl⟩,
    by simp [refuseAll]⟩
  intro group inside
  have marked : markFrom batch.entry 0 batch.groupCount code codes
      (batch.entry group) = some code :=
    markFrom_inside codes (Nat.zero_le group) inside
  simp [refuseAll, marked]

section Loop

variable {batch : BatchArgs}
  {attempt : Nat → Nat → Except DlpClscErr Dispatch}

/-- The reports alone decide whether a run of the loop is honest. -/
theorem honest_loop_iff (marksFirst : Bool)
    (codes final : Nat → Option DlpClscErr)
    (sized : ∀ group matIdx dispatch,
      attempt group matIdx = .ok dispatch →
        dispatch.gSz = batch.matrices group) :
    BatchRun.Honest batch
        ⟨((batch.jobs attempt).run marksFirst codes).handed, final⟩ ↔
      ∀ group < batch.groupCount,
        (final (batch.entry group) = none ↔
          (batch.jobs attempt).Reaches (group + 1)) := by
  rcases (batch.jobs attempt).run_hands marksFirst codes with
    ⟨passed, bounded, -, -, hands⟩
  have places : ∀ handed ∈
      ((batch.jobs attempt).run marksFirst codes).handed,
      batch.Exact handed := fun handed member =>
    ⟨hands.first_eq handed member,
      sized _ _ _ (hands.attempted handed member)⟩
  have handedIff : ∀ group < batch.groupCount,
      ((∃ handed ∈ ((batch.jobs attempt).run marksFirst codes).handed,
        handed.job = group ∧ batch.Exact handed) ↔
        (batch.jobs attempt).Reaches (group + 1)) := by
    intro group inside
    have found := (batch.jobs attempt).run_handed_iff marksFirst codes group
    constructor
    · rintro ⟨handed, member, same, -⟩
      exact (found.mp ⟨handed, member, same⟩).2
    · intro reached
      rcases found.mpr ⟨inside, reached⟩ with ⟨handed, member, same⟩
      exact ⟨handed, member, same, places handed member⟩
  constructor
  · intro honest group inside
    rw [← handedIff group inside]
    exact honest.reports group inside
  · intro reports
    refine ⟨?_, places, ⟨passed, bounded, hands.jobs_eq⟩, ?_⟩
    · intro group inside
      rw [handedIff group inside]
      exact reports group inside
    · intro handed member group _ missed index above below held
      have early : handed.job < passed := by
        rw [← List.mem_range, ← hands.jobs_eq]
        exact List.mem_map_of_mem member
      have late : passed ≤ group := by
        by_contra inside
        have listed : group ∈ List.range passed :=
          List.mem_range.mpr (not_le.mp inside)
        rw [← hands.jobs_eq] at listed
        rcases List.mem_map.mp listed with ⟨other, found, same⟩
        exact missed other found same
      have ends := (batch.jobs attempt).start_succ handed.job
      have ordered := (batch.jobs attempt).start_mono
        (Nat.succ_le_of_lt early |>.trans late)
      have exactly := places handed member
      rw [exactly.1, exactly.2] at below
      change batch.flatStart (handed.job + 1) =
        batch.flatStart handed.job + batch.matrices handed.job at ends
      change batch.flatStart (handed.job + 1) ≤
        batch.flatStart group at ordered
      omega

end Loop

section Entries

variable {Scalar : Type} [BEq Scalar] [OfNat Scalar 0]

theorem f32Group_gSz {around : F32Surroundings} {batch : BatchArgs}
    {beta : Nat → Scalar} (group matIdx : Nat) (dispatch : Dispatch)
    (passes : f32Group around batch beta group matIdx = .ok dispatch) :
    dispatch.gSz = batch.matrices group := by
  rcases bind_ok passes with ⟨_, -, passes⟩
  rcases bind_ok passes with ⟨_, -, passes⟩
  rcases bind_ok passes with ⟨_, -, passes⟩
  rcases bind_ok passes with ⟨_, -, passes⟩
  cases passes
  rfl

theorem s8Group_gSz {around : BatchSurroundings} {batch : BatchArgs}
    (group matIdx : Nat) (dispatch : Dispatch)
    (passes : s8Group around batch group matIdx = .ok dispatch) :
    dispatch.gSz = batch.matrices group := by
  rcases bind_ok passes with ⟨_, -, passes⟩
  rcases bind_ok passes with ⟨_, -, passes⟩
  rcases bind_ok passes with ⟨_, -, passes⟩
  rcases bind_ok passes with ⟨_, -, passes⟩
  cases passes
  rfl

theorem bf16Group_gSz {around : BatchSurroundings} {batch : BatchArgs}
    (group matIdx : Nat) (dispatch : Dispatch)
    (passes : bf16Group around batch group matIdx = .ok dispatch) :
    dispatch.gSz = batch.matrices group := by
  rcases bind_ok passes with ⟨_, -, passes⟩
  rcases bind_ok passes with ⟨_, -, passes⟩
  rcases bind_ok passes with ⟨_, -, passes⟩
  rcases bind_ok passes with ⟨_, -, passes⟩
  cases passes
  rfl

/-- The F32 loop. -/
theorem f32_honest_iff {around : F32Surroundings} {batch : BatchArgs}
    (beta : Nat → Scalar) (codes : Nat → Option DlpClscErr)
    (given : batch.nullArgs = false) (isa : around.avx2fma3 = true) :
    (aoclBatchGemmF32f32f32of32 around batch beta codes).Honest batch ↔
      (batch.jobs (f32Group around batch beta)).Separate := by
  unfold aoclBatchGemmF32f32f32of32
  rw [given, isa]
  exact (honest_loop_iff false _ _ f32Group_gSz).trans
    ((batch.jobs (f32Group around batch beta)).run_honest_iff_marked false
      codes .failure)

/-- The S8S8 loop. -/
theorem s8_honest_iff {around : BatchSurroundings} {batch : BatchArgs}
    (codes : Nat → Option DlpClscErr) (given : batch.nullArgs = false)
    (isa : around.engine.machine.processor.avx512vnni = true) :
    (aoclBatchGemmS8s8s32os32 around batch codes).Honest batch ↔
      (batch.jobs (s8Group around batch)).Separate := by
  unfold aoclBatchGemmS8s8s32os32
  rw [given, isa]
  refine (honest_loop_iff true _ _ s8Group_gSz).trans
    ((batch.jobs (s8Group around batch)).run_honest_iff_markedBehind true
      codes .failure ?_ ?_)
  · intro rejected rejects
    rw [Jobs.stopped_of_rejects _ true codes rejects]
  · intro complete
    cases stopped :
        ((batch.jobs (s8Group around batch)).run true codes).stopped with
    | none => rfl
    | some group =>
        have rejects := Jobs.run_stopped _ true codes stopped
        exact absurd complete (rejects.not_reaches rejects.inside)

/-- The BF16 loop. -/
theorem bf16_honest_iff {around : BatchSurroundings} {batch : BatchArgs}
    (codes : Nat → Option DlpClscErr) (given : batch.nullArgs = false)
    (isa : around.engine.machine.processor.avx512bf16 = true) :
    (aoclBatchGemmBf16bf16f32of32 around batch codes).Honest batch ↔
      (batch.jobs (bf16Group around batch)).Separate ∧
        ∀ group < batch.groupCount,
          ¬ (batch.jobs (bf16Group around batch)).Reaches (group + 1) →
            ¬ (batch.jobs (bf16Group around batch)).Silent codes group := by
  unfold aoclBatchGemmBf16bf16f32of32
  rw [given, isa]
  exact (honest_loop_iff true _ _ bf16Group_gSz).trans
    ((batch.jobs (bf16Group around batch)).run_honest_iff true codes)

/--
When the reports of the three entry points are honest: always where no metadata
object serves both a completed group and another one, except that BF16 also
needs every group that it does not complete to come in with an error code or to
share the object of the rejected group.
-/
theorem batchReports_honest_iff (f32Around : F32Surroundings)
    (around : BatchSurroundings) (batch : BatchArgs) (beta : Nat → Scalar)
    (codes : Nat → Option DlpClscErr) (given : batch.nullArgs = false)
    (avx2fma3 : f32Around.avx2fma3 = true)
    (avx512vnni : around.engine.machine.processor.avx512vnni = true)
    (avx512bf16 : around.engine.machine.processor.avx512bf16 = true) :
    ((aoclBatchGemmF32f32f32of32 f32Around batch beta codes).Honest batch ↔
      (batch.jobs (f32Group f32Around batch beta)).Separate) ∧
    ((aoclBatchGemmS8s8s32os32 around batch codes).Honest batch ↔
      (batch.jobs (s8Group around batch)).Separate) ∧
    ((aoclBatchGemmBf16bf16f32of32 around batch codes).Honest batch ↔
      (batch.jobs (bf16Group around batch)).Separate ∧
        ∀ group < batch.groupCount,
          ¬ (batch.jobs (bf16Group around batch)).Reaches (group + 1) →
            ¬ (batch.jobs (bf16Group around batch)).Silent codes group) := by
  refine ⟨?_, ?_, ?_⟩
  · exact f32_honest_iff beta codes given avx2fma3
  · exact s8_honest_iff codes given avx512vnni
  · exact bf16_honest_iff codes given avx512bf16

end Entries

/-- A Zen5 machine on which every F32 kernel can be generated. -/
def zen5F32 : F32Surroundings where
  processor := zen5Engine.machine.processor
  avx2fma3 := true
  supThres := ⟨0, 0, 0⟩
  backend := zen5Engine.f32Backend
  jitKernel := fun _ _ => true
  jitPackBKernel := fun _ _ => true
  rntm := ⟨1, 1, 1⟩
  postOps := .ok true

/-- A single-threaded Zen5 machine. -/
def zen5Batch : BatchSurroundings :=
  ⟨zen5Engine, ⟨0, 0, 0⟩, ⟨1, 1, 1⟩⟩

/-- Two groups of one 4 by 4 product each, the first with the given rows. -/
def twoGroups (rows : Int) : BatchArgs where
  nullArgs := false
  order := fun _ => 'r'
  transa := fun _ => 'n'
  transb := fun _ => 'n'
  m := fun group => if group = 0 then rows else 4
  n := fun _ => 4
  k := fun _ => 4
  aIsNull := fun _ => false
  lda := fun _ => 4
  bIsNull := fun _ => false
  ldb := fun _ => 4
  cIsNull := fun _ => false
  ldc := fun _ => 4
  groupCount := 2
  groupSize := fun _ => 1
  memFormatA := fun _ => 'n'
  memFormatB := fun _ => 'n'
  entry := fun group => group
  metadata := fun _ => ⟨none, none, none⟩
  postOps := fun _ => .ok ()

/-- Both groups pass, so the three reports are honest. -/
theorem batchReports_honest_twoGroups :
    (aoclBatchGemmF32f32f32of32 zen5F32 (twoGroups 4) (fun _ => (0 : Int))
        fun _ => none).Honest (twoGroups 4) ∧
      (aoclBatchGemmS8s8s32os32 zen5Batch (twoGroups 4)
        fun _ => none).Honest (twoGroups 4) ∧
      (aoclBatchGemmBf16bf16f32of32 zen5Batch (twoGroups 4)
        fun _ => none).Honest (twoGroups 4) := by
  have reports := batchReports_honest_iff zen5F32 zen5Batch (twoGroups 4)
    (fun _ => (0 : Int)) (fun _ => none) rfl rfl rfl rfl
  have completes : ((twoGroups 4).jobs
      (bf16Group zen5Batch (twoGroups 4))).Reaches 2 := by
    intro group inside
    rcases Nat.lt_succ_iff_lt_or_eq.mp inside with first | rfl
    · rw [Nat.lt_one_iff.mp first]
      exact ⟨_, rfl⟩
    · exact ⟨_, rfl⟩
  refine ⟨reports.1.mpr ?_, reports.2.1.mpr ?_, reports.2.2.mpr ⟨?_, ?_⟩⟩
  · exact Jobs.separate_of_injective _ fun _ _ same => same
  · exact Jobs.separate_of_injective _ fun _ _ same => same
  · exact Jobs.separate_of_injective _ fun _ _ same => same
  · intro group inside missed
    exact absurd (completes.of_le inside) missed

/-- The first group has no rows: the second is not run and its metadata, which
came in zeroed, reports success. -/
theorem bf16_reports_skipped_group :
    zen5Batch.engine.machine.processor.avx512bf16 = true ∧
      ¬ (aoclBatchGemmBf16bf16f32of32 zen5Batch (twoGroups 0)
        fun _ => none).Honest (twoGroups 0) := by
  refine ⟨rfl, fun honest => ?_⟩
  rcases (honest.reports 1 (by decide)).mp rfl with ⟨handed, member, -⟩
  exact absurd member List.not_mem_nil

end AoclDlp.Api.BatchGemm
