import AoclDlp.Api.Normalisation
import AoclDlp.Gemm.TinyAgreement

/-!
# Tiny runs of the F32 entry point

The entry point decides which operands, block sizes and kernels its frames
meet.  Every rewrite of the operands keeps a unit stride in each matrix and an
unreordered A of several rows; the kernel init keeps the fused kernel to
problems with a `K` of one, the RD kernels to strided packed B, and hands its
tile to the context.  So both frames solve the problem of every run that takes
the tiny path.
-/

namespace AoclDlp.Gemm.TinyRun

open AoclDlp.Api.F32Gemm
open AoclDlp.Api.GemmCheck
open AoclDlp.Api.Normalisation
open AoclDlp.Config.BlockSize
open AoclDlp.Config.LocalContext
open AoclDlp.DecisionEngine.KernelInit
open AoclDlp.Foundations.Rounding
open AoclDlp.Foundations.Span
open AoclDlp.Foundations.Tiling
open AoclDlp.Gemm.F32Frames
open AoclDlp.Gemm.F32Kernel
open AoclDlp.Gemm.TinyAgreement

/-! ## Operands -/

/-- What every rewrite of the operands keeps. -/
structure Strided (ops : Operands) : Prop where
  unitA : ops.rsA = 1 ∨ ops.csA = 1
  unitB : ops.rsB = 1 ∨ ops.csB = 1
  tagA : ops.mtagA ≠ .packKc
  tagB : ops.mtagB ≠ .packKc

theorem dlpParamMapCharToLpmtag_ne (format : Char) :
    dlpParamMapCharToLpmtag format ≠ .packKc := by
  unfold dlpParamMapCharToLpmtag
  split_ifs <;> decide

theorem packIf_ne (trans : Bool) {mtag : MemoryTag}
    (known : mtag ≠ .packKc) : packIf trans mtag ≠ .packKc := by
  cases trans with
  | true => exact (by decide : MemoryTag.pack ≠ .packKc)
  | false => exact known

theorem storedOperands_strided (args : GemmArgs) :
    Strided (storedOperands args) := by
  refine ⟨?_, ?_, dlpParamMapCharToLpmtag_ne _,
    dlpParamMapCharToLpmtag_ne _⟩
  · unfold storedOperands
    cases isTrans args.transa with
    | true => exact Or.inl rfl
    | false => exact Or.inr rfl
  · unfold storedOperands
    cases isTrans args.transb with
    | true => exact Or.inl rfl
    | false => exact Or.inr rfl

namespace Strided

variable {ops : Operands}

theorem swap (strided : Strided ops) : Strided ops.swap :=
  ⟨strided.unitB, strided.unitA, strided.tagB, strided.tagA⟩

theorem exchangeStrides (strided : Strided ops) :
    Strided ops.exchangeStrides :=
  ⟨strided.unitA.symm, strided.unitB.symm, strided.tagA, strided.tagB⟩

theorem transpose (strided : Strided ops) : Strided ops.transpose :=
  strided.swap.exchangeStrides

theorem retag (strided : Strided ops) {tagA tagB : MemoryTag}
    (knownA : tagA ≠ .packKc) (knownB : tagB ≠ .packKc) :
    Strided { ops with mtagA := tagA, mtagB := tagB } :=
  ⟨strided.unitA, strided.unitB, knownA, knownB⟩

end Strided

theorem columnMajorTags_strided {args : GemmArgs} {ops : Operands}
    (strided : Strided ops) : Strided (columnMajorTags args ops) :=
  strided.retag (packIf_ne _ strided.tagA) (packIf_ne _ strided.tagB)

theorem gemmOperands_strided (induces : Bool) (args : GemmArgs) :
    Strided (gemmOperands induces args) := by
  have stored := storedOperands_strided args
  unfold gemmOperands
  dsimp only
  split_ifs
  · have turned := stored.transpose
    exact ⟨turned.unitA, turned.unitB, turned.tagA, turned.tagB⟩
  · exact stored.retag (packIf_ne _ stored.tagA) (packIf_ne _ stored.tagB)
  · exact stored.retag (packIf_ne _ stored.tagA) stored.tagB
  · have exchanged := stored.exchangeStrides
    exact ⟨exchanged.unitA, exchanged.unitB, exchanged.tagA, exchanged.tagB⟩
  · exact (columnMajorTags_strided stored).swap

theorem gemvStored_strided (args : GemmArgs) :
    Strided (gemvStored args) := by
  have stored := storedOperands_strided args
  unfold gemvStored
  dsimp only
  split_ifs
  · exact stored.retag (packIf_ne _ stored.tagA) (packIf_ne _ stored.tagB)
  · exact (columnMajorTags_strided stored).swap

theorem gemvOperands_strided (postOpsDisabled : Bool) (args : GemmArgs) :
    Strided (gemvOperands postOpsDisabled args) := by
  have turned := (gemvStored_strided args).transpose
  rcases gemvOperands_cases postOpsDisabled args with
    same | ⟨-, -, same⟩ | ⟨-, -, -, same⟩
  · rw [same]
    exact gemvStored_strided args
  · rw [same]
    exact turned.retag (by decide) turned.tagB
  · rw [same]
    exact turned.retag turned.tagA (by decide)

/-- An accepted A of several rows is never reordered. -/
theorem gemmOperands_tagA (induces : Bool) {args : GemmArgs}
    (stored : (storedOperands args).mtagA ≠ .reordered)
    (column : isRowMajor args.order = false →
      (storedOperands args).mtagB ≠ .reordered) :
    (gemmOperands induces args).mtagA ≠ .reordered := by
  have packed (trans : Bool) {mtag : MemoryTag} (known : mtag ≠ .reordered) :
      packIf trans mtag ≠ .reordered := by
    cases trans with
    | true => exact (by decide : MemoryTag.pack ≠ .reordered)
    | false => exact known
  unfold gemmOperands
  dsimp only
  split_ifs with rowMajor reordered
  · exact reordered
  · exact packed _ stored
  · exact packed _ stored
  · exact stored
  · exact packed _ (column (Bool.eq_false_of_not_eq_true rowMajor))

/-- The result of a single row has unit column stride. -/
theorem gemvOperands_row (postOpsDisabled : Bool) {args : GemmArgs}
    (columns : (gemvOperands postOpsDisabled args).n ≠ 1) :
    (gemvOperands postOpsDisabled args).csC = 1 := by
  rcases gemvOperands_cases postOpsDisabled args with
    same | ⟨-, row, same⟩ | ⟨-, -, unit, same⟩
  · rw [same]
    unfold gemvStored
    dsimp only
    split_ifs <;> rfl
  · rw [same] at columns
    exact absurd row columns
  · rw [same]
    exact unit

/-! ## Kernels -/

section Kernels

variable {Scalar : Type} [BEq Scalar] [OfNat Scalar 0]
  {backend : F32Backend} {processor : Processor} {call : GemmCall}
  {beta : Scalar} {hints : Hints} {kernel : F32KernelInfo}

/-- The kernels of a single row or column. -/
theorem nativeKernelInfo_gemv (vector : call.m = 1 ∨ call.n = 1)
    (returns : nativeKernelInfo backend processor call beta hints =
      some kernel) :
    kernel.invokeRD = false ∧
      (kernel.info.kc = hints.kcHint ∨ kernel.info.kc = 512) ∧
      (call.n = 1 → kernel.info.dims.nr = 1 ∧ kernel.info.dims.mr ≠ 1) ∧
      (call.n ≠ 1 → kernel.info.dims.mr = 1) := by
  unfold nativeKernelInfo nativeGemvKernelInfo at returns
  rw [if_pos vector] at returns
  dsimp only at returns
  split at returns
  · rcases Option.bind_eq_some_iff.mp returns with ⟨preference, -, found⟩
    split_ifs at found with column avx2 ymm avx512 row avx2 ymm avx512
    · cases found
      exact ⟨rfl, Or.inl rfl, fun _ => ⟨rfl, by simp⟩,
        fun several => absurd column several⟩
    · cases found
      exact ⟨rfl, Or.inl rfl, fun _ => ⟨rfl, by simp⟩,
        fun several => absurd column several⟩
    · cases found
      exact ⟨rfl, Or.inl rfl, fun _ => ⟨rfl, by simp⟩,
        fun several => absurd column several⟩
    · cases found
      exact ⟨rfl, Or.inr rfl, fun single => absurd single column,
        fun _ => rfl⟩
    · cases found
      exact ⟨rfl, Or.inr rfl, fun single => absurd single column,
        fun _ => rfl⟩
    · cases found
      exact ⟨rfl, Or.inl rfl, fun single => absurd single column,
        fun _ => rfl⟩
  · cases returns

theorem skinnyMr_ne_one (processor : Processor) {mask : BlkszSetMask}
    (elemBytes : Nat) {skinnyN : Bool} {mr : Nat} (tall : 1 < mr)
    (several : skinnyN = true → 2 ≤ call.m) :
    skinnyMr processor call mask elemBytes skinnyN mr ≠ 1 := by
  by_cases bumped : skinnyN = true ∧ mask.MR = false
  · rw [bumped.1]
    have bounds := skinnyMr_bounds processor elemBytes mr bumped.2
      (several bumped.1)
    omega
  · unfold skinnyMr
    rw [if_neg (by simpa using bumped)]
    exact tall.ne'

/-- The kernels of several rows and columns. -/
theorem nativeKernelInfo_tile (rows : call.m ≠ 1) (columns : call.n ≠ 1)
    (returns : nativeKernelInfo backend processor call beta hints =
      some kernel) :
    kernel.info.dims.mr ≠ 1 ∧ kernel.info.dims.nr ≠ 1 ∧
      (kernel.invokeRD = true → call.mtagB = .pack ∧ call.csB ≠ 1) := by
  unfold nativeKernelInfo nativeGemmKernelInfo at returns
  rw [if_neg (not_or.mpr ⟨rows, columns⟩)] at returns
  split at returns
  · split at returns
    · cases returns
    next tall =>
      rcases Option.map_eq_some_iff.mp returns with ⟨preference, -, rfl⟩
      rcases not_or.mp tall with ⟨tallM, tallN⟩
      refine ⟨?_, ?_, ?_⟩
      · refine skinnyMr_ne_one processor 4 (not_le.mp tallM) ?_
        intro skinny
        simp only [Bool.and_eq_true, decide_eq_true_eq] at skinny
        omega
      · dsimp only
        omega
      · intro invoked
        dsimp only [invokesRD] at invoked
        simp only [Bool.and_eq_true, decide_eq_true_eq] at invoked
        exact ⟨invoked.1.2, invoked.1.1.2⟩
  · cases returns

end Kernels

/-! ## Runs -/

section Run

variable {Scalar : Type} [BEq Scalar] [OfNat Scalar 0]
  {around : F32Surroundings} {args : F32Args Scalar}
  {metadata : Option DlpMetadata} {hasPostOps : Bool}
  {run : F32Run Scalar}

/-- The operands of a run, as far as the frames need to know them. -/
structure RunOperands (args : GemmArgs) (ops : Operands) : Prop where
  strided : Strided ops
  tagA : ops.m ≠ 1 → ops.n ≠ 1 → ops.mtagA ≠ .reordered
  row : ops.m = 1 → ops.n ≠ 1 → ops.csC = 1
  unpacked : ops.mtagB = .unpacked → 1 < ops.n → ops.csB = 1
  turned : ∃ turn, Presents ops args turn

theorem runOperands_gemv (postOpsDisabled : Bool) {args : GemmArgs}
    (vector : (storedOperands args).m = 1 ∨ (storedOperands args).n = 1) :
    RunOperands args (gemvOperands postOpsDisabled args) := by
  rcases gemvOperands_presents postOpsDisabled args with ⟨turn, presents, -⟩
  refine ⟨gemvOperands_strided _ _, ?_, fun _ => gemvOperands_row _,
    gemvOperands_unpacked _, turn, presents⟩
  intro rows columns
  have shape : (gemvOperands postOpsDisabled args).m = 1 ∨
      (gemvOperands postOpsDisabled args).n = 1 := by
    have same : kernelProblem (gemvOperands postOpsDisabled args) =
        (callerProblem args).turned turn := presents
    have heights := congrArg Problem.m same
    have widths := congrArg Problem.n same
    cases turn with
    | false =>
        rcases vector with row | column
        · exact Or.inl (heights.trans row)
        · exact Or.inr (widths.trans column)
    | true =>
        rcases vector with row | column
        · exact Or.inr (widths.trans row)
        · exact Or.inl (heights.trans column)
  exact absurd shape (not_or.mpr ⟨rows, columns⟩)

theorem runOperands_gemm (induces : Bool) {args : GemmArgs}
    (several : ¬ ((storedOperands args).m = 1 ∨
      (storedOperands args).n = 1))
    (tagA : (storedOperands args).mtagA ≠ .reordered)
    (tagB : isRowMajor args.order = false →
      (storedOperands args).mtagB ≠ .reordered) :
    RunOperands args (gemmOperands induces args) := by
  rcases gemmOperands_presents induces args with ⟨turn, presents, -⟩
  rcases not_or.mp several with ⟨rows, columns⟩
  refine ⟨gemmOperands_strided _ _,
    fun _ _ => gemmOperands_tagA induces tagA tagB, ?_,
    fun unpacked _ => gemmOperands_unpacked induces unpacked, turn, presents⟩
  intro row _
  exact absurd row (gemmOperands_dims induces rows columns).1

/-- What an accepted call passes to its frame. -/
structure Accepted (around : F32Surroundings) (args : F32Args Scalar)
    (run : F32Run Scalar) : Prop where
  avx2fma3 : around.avx2fma3 = true
  checked : aoclDlpGemmCheck args.gemm = .ok ()
  operands : RunOperands args.gemm run.ops
  settles : ∃ lcntx, PositiveBlocks lcntx.blksz ∧
    Settles around args.beta run.ops args.gemm.k.toNat lcntx run

theorem run_accepted
    (runs : aoclGemmF32f32f32of32 around args metadata hasPostOps =
      .ok run) :
    Accepted around args run := by
  unfold aoclGemmF32f32f32of32 at runs
  rcases bind_ok runs with ⟨⟨⟩, vector, runs⟩
  rcases bind_ok runs with ⟨⟨⟩, checked, runs⟩
  rcases bind_ok runs with ⟨⟨⟩, tags, runs⟩
  rcases bind_ok runs with ⟨lcntx, merges, runs⟩
  rcases bind_ok runs with ⟨postOpsDisabled, -, runs⟩
  have settled := settleF32_settles runs
  have avx := (runRules_ok_iff _).mp vector _ List.mem_cons_self
  have known := (runRules_ok_iff _).mp tags _ List.mem_cons_self
  rw [Bool.or_eq_false_iff, decide_eq_false_iff_not,
    Bool.and_eq_false_iff, decide_eq_false_iff_not] at known
  have column : isRowMajor args.gemm.order = false →
      (storedOperands args.gemm).mtagB ≠ .reordered := by
    intro notRow
    rcases order_of_check checked with rowMajor | columnMajor
    · exact absurd (rowMajor.symm.trans notRow) (by decide)
    · exact known.2.resolve_left (by rw [columnMajor]; decide)
  refine ⟨by simpa using avx, checked, ?_, lcntx,
    upd_positive (blkszMap_positive _ _) merges, ?_⟩
  · rw [settled.operands]
    split
    next vectors => exact runOperands_gemv _ vectors
    next several => exact runOperands_gemm _ several known.1 column
  · exact settled.operands.symm ▸ settled

/-- The arguments that a run hands to its frame. -/
def frameArgs (around : F32Surroundings) (args : F32Args Scalar)
    (run : F32Run Scalar) (packers : Packers Scalar)
    (contents : Operand → Nat → Scalar) : FrameArgs Scalar where
  ops := run.ops
  k := run.k
  a := contents run.ops.aUse
  b := contents run.ops.bUse
  alpha := args.alpha
  beta := run.beta
  blksz := run.lcntx.blksz
  kernel := run.kernel
  packers := packers
  avx512 := around.processor.avx512
  avx2fma3 := around.avx2fma3

/-- The extents of an accepted call are positive. -/
theorem Accepted.positive (accepted : Accepted around args run) :
    0 < run.ops.m ∧ 0 < run.ops.n ∧ 0 < run.k := by
  have sized := sized_of_check accepted.checked
  rcases accepted.settles with ⟨lcntx, -, settled⟩
  rcases accepted.operands.turned with ⟨turn, presents⟩
  have same : kernelProblem run.ops =
      (callerProblem args.gemm).turned turn := presents
  have heights := congrArg Problem.m same
  have widths := congrArg Problem.n same
  have rows : 0 < args.gemm.m.toNat := Int.pos_iff_toNat_pos.mp sized.m_pos
  have columns : 0 < args.gemm.n.toNat :=
    Int.pos_iff_toNat_pos.mp sized.n_pos
  have depth : 0 < run.k := settled.depth ▸
    Int.pos_iff_toNat_pos.mp sized.k_pos
  cases turn with
  | false =>
      exact ⟨rows.trans_eq heights.symm, columns.trans_eq widths.symm, depth⟩
  | true =>
      exact ⟨columns.trans_eq heights.symm, rows.trans_eq widths.symm, depth⟩

/-- The tiny gate keeps `K` within one block. -/
theorem shallow_of_tiny {m n k : Nat} {blksz : DlpGemmBlockSize}
    (positive : 0 < blksz.KC)
    (tiny : isTinyInputF32 m n k blksz = true) : k ≤ blksz.KC := by
  unfold isTinyInputF32 at tiny
  simp only [Bool.or_eq_true, Bool.and_eq_true, decide_eq_true_eq] at tiny
  rcases tiny with single | ⟨⟨⟨below, -⟩, -⟩, -⟩
  · rw [single]
    exact positive
  · exact below.le

/-- The kernel of a run for a single row or column. -/
theorem settles_gemv {beta : Scalar} {ops : Operands} {k : Nat}
    {lcntx : DlpGemmCntx} (settled : Settles around beta ops k lcntx run)
    (vector : ops.m = 1 ∨ ops.n = 1) :
    run.kernel.invokeRD = false ∧
      (run.kernel.info.kc = lcntx.blksz.KC ∨ run.kernel.info.kc = 512) ∧
      (ops.n = 1 → run.kernel.info.dims.nr = 1 ∧
        run.kernel.info.dims.mr ≠ 1) ∧
      (ops.n ≠ 1 → run.kernel.info.dims.mr = 1) :=
  nativeKernelInfo_gemv vector settled.returns

/-- The kernel of a run for several rows and columns. -/
theorem settles_gemm {beta : Scalar} {ops : Operands} {k : Nat}
    {lcntx : DlpGemmCntx} (settled : Settles around beta ops k lcntx run)
    (rows : ops.m ≠ 1) (columns : ops.n ≠ 1) :
    run.kernel.info.dims.mr ≠ 1 ∧ run.kernel.info.dims.nr ≠ 1 ∧
      (run.kernel.invokeRD = true → ops.mtagB = .pack ∧ ops.csB ≠ 1) ∧
      run.kernel.info.kc = if k = 1 then 1 else lcntx.blksz.KC := by
  have several : (engineCall around ops k).m ≠ 1 := rows
  rcases nativeKernelInfo_tile several columns settled.returns with
    ⟨mr, nr, rd⟩
  exact ⟨mr, nr, rd, (nativeKernelInfo_gemm several columns
    settled.returns).1⟩

/-- The `KC` of a run is positive. -/
theorem settles_kc_pos {beta : Scalar} {ops : Operands} {k : Nat}
    {lcntx : DlpGemmCntx} (settled : Settles around beta ops k lcntx run)
    (positive : 0 < lcntx.blksz.KC) : 0 < run.kernel.info.kc := by
  by_cases vector : ops.m = 1 ∨ ops.n = 1
  · rcases (settles_gemv settled vector).2.1 with hinted | fixed
    · exact hinted ▸ positive
    · rw [fixed]
      decide
  · rcases not_or.mp vector with ⟨rows, columns⟩
    rw [(settles_gemm settled rows columns).2.2.2]
    split_ifs
    · exact Nat.one_pos
    · exact positive

/-- The frames of a tiny run are served as their proofs assume. -/
theorem Accepted.served (accepted : Accepted around args run)
    (tiny : isTinyInputF32 run.ops.m run.ops.n run.k run.lcntx.blksz = true)
    (packers : Packers Scalar) (contents : Operand → Nat → Scalar) :
    Served (frameArgs around args run packers contents) := by
  rcases accepted.positive with ⟨rows, columns, depth⟩
  rcases accepted.settles with ⟨lcntx, positive, settled⟩
  have MR : 0 < run.kernel.info.dims.mr := Nat.pos_of_ne_zero settled.mr_ne
  have NR : 0 < run.kernel.info.dims.nr := Nat.pos_of_ne_zero settled.nr_ne
  have kc := settles_kc_pos settled positive.KC_pos
  have blksz := settled.blksz
  have KC : run.lcntx.blksz.KC = run.kernel.info.kc := by rw [blksz]
  have gemm := settles_gemm settled
  have gemv := settles_gemv settled
  constructor
  case m_pos => exact rows
  case n_pos => exact columns
  case k_pos => exact depth
  case MC_pos =>
    change 0 < run.lcntx.blksz.MC
    rw [blksz]
    exact roundUp_pos MR positive.MC_pos
  case NC_pos =>
    change 0 < run.lcntx.blksz.NC
    rw [blksz]
    exact roundUp_pos NR positive.NC_pos
  case MR_pos =>
    change 0 < run.lcntx.blksz.MR
    rw [blksz]
    exact MR
  case NR_pos =>
    change 0 < run.lcntx.blksz.NR
    rw [blksz]
    exact NR
  case panels =>
    change run.lcntx.blksz.NR ∣ run.lcntx.blksz.NC
    rw [blksz]
    exact dvd_roundUp _ _
  case shallow => exact shallow_of_tiny (KC ▸ kc) tiny
  case mr =>
    change _ = run.lcntx.blksz.MR
    rw [blksz]
    rfl
  case nr =>
    change _ = run.lcntx.blksz.NR
    rw [blksz]
    rfl
  case kc => exact KC.symm
  case vector => exact Or.inr accepted.avx2fma3
  case tagB => exact accepted.operands.strided.tagB
  case unitB => exact accepted.operands.strided.unitB
  case unpacked =>
    intro unpacked several
    exact accepted.operands.unpacked unpacked
      (lt_of_le_of_ne columns (Ne.symm several))
  case tile =>
    intro severalRows severalColumns
    change run.lcntx.blksz.MR ≠ 1 ∧ run.lcntx.blksz.NR ≠ 1
    rw [blksz]
    exact ⟨(gemm severalRows severalColumns).1,
      (gemm severalRows severalColumns).2.1⟩
  case fused =>
    intro severalRows severalColumns single
    change run.lcntx.blksz.KC = 1
    rw [KC, (gemm severalRows severalColumns).2.2.2,
      if_pos (settled.depth.symm.trans single)]
  case rd =>
    intro invoked
    by_cases vector : run.ops.m = 1 ∨ run.ops.n = 1
    · exact absurd invoked (by
        change ¬ run.kernel.invokeRD = true
        rw [(gemv vector).1]
        decide)
    · rcases not_or.mp vector with ⟨severalRows, severalColumns⟩
      exact (gemm severalRows severalColumns).2.2.1 invoked
  case column =>
    intro single
    change run.lcntx.blksz.NR = 1 ∧ run.lcntx.blksz.MR ≠ 1
    rw [blksz]
    exact (gemv (Or.inr single)).2.2.1 single
  case row =>
    intro single several
    change run.lcntx.blksz.MR = 1 ∧ run.ops.csC = 1
    rw [blksz]
    exact ⟨(gemv (Or.inl single)).2.2.2 several,
      accepted.operands.row single several⟩
  case tagA => exact accepted.operands.tagA

/-- Addresses of a matrix tell its elements apart. -/
theorem matrixAddress_inj {order : Char} {ld m n row column row2 column2 : Nat}
    (rowFits : isRowMajor order = true → n ≤ ld)
    (columnFits : isRowMajor order = false → m ≤ ld)
    (inside : row < m ∧ column < n) (inside2 : row2 < m ∧ column2 < n)
    (same : matrixAddress order ld row column =
      matrixAddress order ld row2 column2) :
    row = row2 ∧ column = column2 := by
  unfold matrixAddress at same
  cases rowMajor : isRowMajor order with
  | true =>
      have fits := rowFits rowMajor
      rw [rowMajor, if_pos rfl, if_pos rfl, Nat.mul_comm ld,
        Nat.mul_comm ld] at same
      exact (mul_add_eq_iff (inside.2.trans_le fits)
        (inside2.2.trans_le fits)).mp same
  | false =>
      have fits := columnFits rowMajor
      rw [rowMajor, if_neg Bool.false_ne_true, if_neg Bool.false_ne_true,
        Nat.add_comm, Nat.add_comm row2, Nat.mul_comm ld,
        Nat.mul_comm ld] at same
      exact ((mul_add_eq_iff (inside.1.trans_le fits)
        (inside2.1.trans_le fits)).mp same).symm

/-- Addresses of the output tell its elements apart. -/
theorem Accepted.result_inj (accepted : Accepted around args run)
    {i j i2 j2 : Nat} (inside : i < run.ops.m ∧ j < run.ops.n)
    (inside2 : i2 < run.ops.m ∧ j2 < run.ops.n)
    (same : run.ops.rsC * i + run.ops.csC * j =
      run.ops.rsC * i2 + run.ops.csC * j2) :
    i = i2 ∧ j = j2 := by
  rcases accepted.operands.turned with ⟨turn, presents⟩
  have denotes := presents.denotes
  have fits := ldc_of_check accepted.checked
  rw [denotes.written, denotes.written] at same
  have apart := matrixAddress_inj (m := args.gemm.m.toNat)
    (n := args.gemm.n.toNat)
    (fun rowMajor => Int.toNat_le_toNat (fits.1 rowMajor))
    (fun notRow => Int.toNat_le_toNat (fits.2
      ((order_of_check accepted.checked).resolve_left
        (by rw [notRow]; decide))))
    ((denotes.inside i j).mp inside) ((denotes.inside i2 j2).mp inside2) same
  have pairs : (i, j) = (i2, j2) :=
    (turnedCoordinates turn).injective (Prod.ext apart.1 apart.2)
  exact Prod.mk.inj pairs

/-- Updates of the output that meet at an address are one update. -/
theorem Accepted.updates_functional (accepted : Accepted around args run)
    {frame : FrameArgs Scalar} (operands : frame.ops = run.ops)
    {update other : ElementUpdate Scalar}
    (member : update ∈
      tileItems (element frame) ⟨0, run.ops.m⟩ ⟨0, run.ops.n⟩)
    (otherMember : other ∈
      tileItems (element frame) ⟨0, run.ops.m⟩ ⟨0, run.ops.n⟩)
    (same : update.address = other.address) : update = other := by
  rcases mem_tileItems.mp member with ⟨i, j, row, column, rfl⟩
  rcases mem_tileItems.mp otherMember with ⟨i2, j2, row2, column2, rfl⟩
  have inside (index width : Nat) (has : Piece.Has ⟨0, width⟩ index) :
      index < width := by simpa using has.2
  change frame.ops.rsC * i + frame.ops.csC * j =
    frame.ops.rsC * i2 + frame.ops.csC * j2 at same
  rw [operands] at same
  rcases accepted.result_inj ⟨inside i _ row, inside j _ column⟩
    ⟨inside i2 _ row2, inside j2 _ column2⟩ same with ⟨rfl, rfl⟩
  rfl

end Run

/-- A Zen5 machine with one thread. -/
def soleMachine : F32Surroundings where
  processor := ⟨false, true, true, true, true, .zen5, false⟩
  avx2fma3 := true
  supThres := ⟨0, 0, 0⟩
  backend := ⟨true, false, .none, true⟩
  jitKernel := fun _ _ => true
  jitPackBKernel := fun _ _ => true
  rntm := ⟨1, -1, -1⟩
  postOps := .ok true

/-- A 3 by 70 product over 1 with a reordered B. -/
def outerArgs : F32Args Int :=
  ⟨⟨'r', 'n', 'n', 3, 70, 1, false, 1, 'n', false, 70, 'r', false, 70⟩, 2, 3⟩

end AoclDlp.Gemm.TinyRun
