import AoclDlp.Quant.SymQuant

/-!
# Where the sym-quant entry, engine and frame agree

The engine decides for a GEMV kernel from the local context, into which the
entry merged the caller's block sizes.  The frame decides for its GEMV branch
from the table, and the reorder never sees the caller's block sizes at all.
This module says exactly which block sizes keep the three together.
-/

namespace AoclDlp.Quant.Agreement

open AoclDlp.Api.GemmCheck
open AoclDlp.Config.BlockSize
open AoclDlp.Config.LocalContext
open AoclDlp.Foundations.Rounding
open AoclDlp.Quant.GroupSize
open AoclDlp.Quant.KernelInit
open AoclDlp.Quant.SymQuant

/-! ## The GEMV gates -/

section Gates

variable {globalCntx : DlpGemmCntx} {call : QuantCall} {groupSize : Nat}

/-- B is reordered and split into whole groups. -/
def WholeGroups (call : QuantCall) (groupSize : Nat) : Prop :=
  call.mtagB = .reordered ∧ groupSize ∣ call.k

/-- The K block that starts from `baseKC` keeps a group of a wide B whole. -/
def KeepsGroup (call : QuantCall) (groupSize baseKC : Nat) : Prop :=
  groupSize ≠ call.k ∨ call.k ∣ baseKC

/-- The engine's attempt at a kernel for one row is not refused. -/
def EngineKeepsGemv (stated : DlpGemmBlockSize) (call : QuantCall)
    (groupSize : Nat) : Prop :=
  WholeGroups call groupSize ∧ KeepsGroup call groupSize stated.KC ∧
    GemvWidth stated.NR

/--
When the two gates agree, in terms of the table and of the block sizes that
the caller states.  With one column the frame runs its GEMV branch over whole
groups, and else no stated tile may look like a GEMV key.  With one row the
engine's attempt has to survive exactly when the frame's does, unless a stated
`MR` of one makes the fallback look like a GEMV key.
-/
def GemvGatesAgree (table stated : DlpGemmBlockSize) (call : QuantCall)
    (groupSize : Nat) : Prop :=
  (call.n = 1 →
    WholeGroups call groupSize ∨
      (stated.NR ≠ 1 ∧ (call.m = 1 → stated.MR ≠ 1))) ∧
  (call.n ≠ 1 → call.m = 1 →
    (EngineKeepsGemv stated call groupSize →
      KeepsGroup call groupSize table.KC) ∧
    (¬ EngineKeepsGemv stated call groupSize →
      (WholeGroups call groupSize ∧ KeepsGroup call groupSize table.KC ↔
        stated.MR = 1)))

theorem frameKC_eq (legal : LegalGroup groupSize call.k) :
    frameKC globalCntx call groupSize =
      symQuantKC globalCntx.blksz.KC groupSize call.n call.k := by
  have positive := legal.pos
  have within := legal.le
  unfold frameKC normalisedGroupSize
  rw [if_neg (by omega)]

/-- The frame's gate over a legal group. -/
theorem takesGemv_iff (legal : LegalGroup groupSize call.k) :
    TakesGemv globalCntx call groupSize ↔
      WholeGroups call groupSize ∧
        (call.n = 1 ∨
          (call.m = 1 ∧ KeepsGroup call groupSize globalCntx.blksz.KC)) := by
  have block := dvd_symQuantKC_iff globalCntx.blksz.KC groupSize call.n
    call.k
  unfold TakesGemv WholeGroups KeepsGroup
  rw [frameKC_eq legal, ← Nat.dvd_iff_mod_eq_zero,
    ← Nat.dvd_iff_mod_eq_zero, block]
  tauto

/-- The engine's gate over the K block of the entry. -/
theorem gate_iff {baseKC : Nat}
    (stored : call.cDownscale = .f32 ∨ call.cDownscale = .bf16)
    (normalised : normalisedGroupSize call.groupSize call.k = groupSize)
    (legal : LegalGroup groupSize call.k) :
    gemvDispatchGateHolds call (symQuantKC baseKC groupSize call.n call.k) =
        true ↔
      WholeGroups call groupSize ∧
        (call.n = 1 ∨ KeepsGroup call groupSize baseKC) := by
  rw [gemvDispatchGateHolds_iff stored normalised legal.pos,
    dvd_symQuantKC_iff]
  unfold WholeGroups KeepsGroup
  tauto

/-- Both gates for a key that the engine returned under some hints. -/
theorem gates_agree_iff {info : QuantKernelInfo} {hints : DlpGemmBlockSize}
    (stored : call.cDownscale = .f32 ∨ call.cDownscale = .bf16)
    (normalised : normalisedGroupSize call.groupSize call.k = groupSize)
    (legal : LegalGroup groupSize call.k)
    (returned : Returned call hints.MR hints.NR
      (symQuantKC hints.KC groupSize call.n call.k) info) :
    (info.IsGemvKey call.m call.n ↔ TakesGemv globalCntx call groupSize) ↔
      GemvGatesAgree globalCntx.blksz hints call groupSize := by
  have engine := @gate_iff call groupSize hints.KC stored normalised legal
  have frame := @takesGemv_iff globalCntx call groupSize legal
  unfold GemvGatesAgree
  by_cases column : call.n = 1
  · rw [returned.isGemvKey_column column, engine, frame]
    by_cases whole : WholeGroups call groupSize
    · simp [column, whole]
    · simp [column, whole]
  · by_cases row : call.m = 1
    · rw [returned.isGemvKey_row row column, engine, frame]
      unfold EngineKeepsGemv
      by_cases whole : WholeGroups call groupSize
      · by_cases keeps : KeepsGroup call groupSize hints.KC ∧
            GemvWidth hints.NR
        · simp [column, row, whole, keeps]
        · simp only [column, row, whole, keeps, true_and, false_or,
            and_false, ne_eq, not_false_eq_true, forall_true_left,
            IsEmpty.forall_iff]
          exact Iff.comm
      · simp [column, row, whole]
    · have key := info.not_isGemvKey row column
      simp [column, row, key, frame]

theorem symQuantCntx_blksz {metadata : DlpMetadata} {lcntx : DlpGemmCntx}
    (legal : LegalGroup groupSize call.k)
    (prepares : symQuantCntx globalCntx metadata call groupSize =
      .ok lcntx) :
    lcntx.blksz =
      { metadata.statedBlksz globalCntx.blksz with
        KC := symQuantKC (metadata.statedBlksz globalCntx.blksz).KC groupSize
          call.n call.k } := by
  have positive := legal.pos
  have within := legal.le
  have normal : normalisedGroupSize groupSize call.k = groupSize := by
    unfold normalisedGroupSize
    rw [if_neg (by omega)]
  rcases bind_ok prepares with ⟨merged, merges, rest⟩
  cases rest
  unfold withSymQuantKC
  rw [normal, upd_blksz merges]

/--
The engine's and the frame's GEMV gates.  The S8S8 gates agree exactly under
`GemvGatesAgree`; the S8S4 entry keeps the table's blocks, and its gates always
agree.
-/
theorem gemvGates_agree_iff (table : TableBlksz globalCntx.blksz)
    (stored : call.cDownscale = .f32 ∨ call.cDownscale = .bf16)
    (normalised : normalisedGroupSize call.groupSize call.k = groupSize)
    (legal : LegalGroup groupSize call.k) (engine : QuantEngine) :
    (∀ metadata lcntx info threads,
      symQuantCntx globalCntx metadata call groupSize = .ok lcntx →
      dlpGetGemmQuantKernelInfoByDtype engine .s8 call lcntx.blksz.MR
          lcntx.blksz.NR lcntx.blksz.KC lcntx.threadInfo =
        some (info, threads) →
      ((info.IsGemvKey call.m call.n ↔
          TakesGemv globalCntx call groupSize) ↔
        GemvGatesAgree globalCntx.blksz
          (metadata.statedBlksz globalCntx.blksz) call groupSize)) ∧
    (∀ rntm lcntx info threads,
      lcntx = withSymQuantKC (globalCntx.withThreads rntm) groupSize call.n
        call.k →
      dlpGetGemmQuantKernelInfoByDtype engine .s8s4 call lcntx.blksz.MR
          lcntx.blksz.NR lcntx.blksz.KC lcntx.threadInfo =
        some (info, threads) →
      (info.IsGemvKey call.m call.n ↔
        TakesGemvS8s4 globalCntx call groupSize)) := by
  constructor
  · intro metadata lcntx info threads prepares returns
    have returned := returned_of_some returns
    rw [symQuantCntx_blksz legal prepares] at returned
    exact gates_agree_iff stored normalised legal returned
  · rintro rntm lcntx info threads rfl returns
    have returned := returned_of_some returns
    have block : (withSymQuantKC (globalCntx.withThreads rntm) groupSize
        call.n call.k).blksz.KC =
          symQuantKC globalCntx.blksz.KC groupSize call.n call.k :=
      frameKC_eq legal
    rw [block] at returned
    have agree := (@gates_agree_iff globalCntx call groupSize info
      globalCntx.blksz stored normalised legal returned).mpr
    unfold TakesGemvS8s4
    rw [agree ?_]
    · exact ⟨fun takes => ⟨legal.pos, takes⟩, fun both => both.2⟩
    · refine ⟨fun _ => Or.inr ⟨?_, fun _ => ?_⟩, fun _ _ =>
        ⟨fun keeps => keeps.2.1, fun refused => ?_⟩⟩
      · rw [table.NR]
        decide
      · rw [table.MR]
        decide
      · have width : GemvWidth globalCntx.blksz.NR := by
          rw [table.NR]
          exact ⟨by decide, by decide, by decide⟩
        rw [table.MR]
        refine ⟨fun both => absurd ⟨both.1, both.2, width⟩ refused, ?_⟩
        intro six
        cases six

end Gates

/-! ## The reordered layout -/

section Layouts

variable {around : Surroundings} {cDownscale : DlpType}
    {args : SymQuantArgs} {reorderArgs : ReorderArgs}
    {metadata : QuantMetadata} {groupSize : Nat}

/--
When the reorder and the GEMM use the same blocks.  A single column of whole
groups has none.  Else the caller may state only the panel width of the table
and an `NC` that rounds to the table's, and the GEMV branch for one row also
needs a `KC` that aligns as the table's does.
-/
def LayoutsAgree (table stated : DlpGemmBlockSize) (m n k groupSize : Nat) :
    Prop :=
  (n = 1 ∧ groupSize ∣ k) ∨
    (stated.NR = 64 ∧ 960 < stated.NC ∧ stated.NC ≤ 1024 ∧
      (m = 1 → n ≠ 1 → groupSize ∣ k → groupSize ≠ k ∨ k ∣ table.KC →
        dlpGemmAlignKcToGroup stated.KC groupSize =
          dlpGemmAlignKcToGroup table.KC groupSize))

/-- The blocks that the reorder uses for panels. -/
def reorderKC (table : DlpGemmBlockSize) (groupSize k : Nat) : Nat :=
  if groupSize ≠ k then dlpGemmAlignKcToGroup table.KC groupSize
  else table.KC

/-- The layout that an accepted reorder writes. -/
theorem reorder_layout {layout : BLayout} {aOp bOp : DlpQuantOp}
    (statesA : metadata.aQuantOp = some aOp)
    (statesB : metadata.bQuantOp = some bOp)
    (size : (groupSize : Int) = groupSizeOf reorderArgs.k (some bOp))
    (packs : aoclReorderS8s8s32os32SymQuant around reorderArgs
      (some metadata) = .ok layout) :
    layout =
      if reorderArgs.n = 1 ∧ groupSize ∣ reorderArgs.k.toNat then .column
      else
        .panels around.globalCntx.blksz.NR around.globalCntx.blksz.NC
          (reorderKC around.globalCntx.blksz groupSize
            reorderArgs.k.toNat) := by
  unfold aoclReorderS8s8s32os32SymQuant at packs
  rcases bind_ok packs with ⟨_, -, packs⟩
  rcases bind_ok packs with ⟨stated, reads, packs⟩
  rcases bind_ok packs with ⟨_, -, packs⟩
  rcases bind_ok packs with ⟨_, -, packs⟩
  have same : stated.toNat = groupSize := by
    rw [reorderGroupSize_eq statesA statesB reads, ← size]
    exact Int.toNat_natCast groupSize
  have aligned : dlpGemmAlignKcToGroup around.globalCntx.blksz.KC groupSize %
      groupSize = 0 :=
    Nat.mod_eq_zero_of_dvd (dvd_alignKc _ _)
  dsimp only at packs
  rw [same] at packs
  simp only [aligned, and_true, ← Nat.dvd_iff_mod_eq_zero] at packs
  by_cases column : reorderArgs.n = 1 ∧ groupSize ∣ reorderArgs.k.toNat
  · rw [if_pos column] at packs ⊢
    cases packs
    rfl
  · rw [if_neg column] at packs ⊢
    cases packs
    rfl

/-- The tags of a row-major call over a reordered B. -/
theorem frameCall_rowMajor {aOp bOp : DlpQuantOp}
    (tag : dlpParamMapCharToLpmtag args.gemm.memFormatB = .reordered)
    (checks : aoclDlpGemmCheck args.gemm = .ok ())
    (rowMajor : isColumnMajor args.gemm.order = false) :
    (frameCall args aOp bOp cDownscale).m = args.gemm.m.toNat ∧
      (frameCall args aOp bOp cDownscale).n = args.gemm.n.toNat ∧
      (frameCall args aOp bOp cDownscale).mtagB = .reordered := by
  have order := (runRules_ok_iff _).mp checks
    ⟨!(isRowMajor args.gemm.order || isColumnMajor args.gemm.order),
      .invalidOrder⟩ (by simp [gemmRules])
  have row : isRowMajor args.gemm.order = true := by
    simpa [rowMajor] using order
  unfold frameCall symQuantTags
  rw [if_neg (by simp [rowMajor])]
  simp [row, tag]

/-- The blocks with which the S8S8 frame runs. -/
theorem run_blksz {globalCntx : DlpGemmCntx} {engine : QuantEngine}
    {stated : DlpMetadata} {lcntx : DlpGemmCntx} {run : QuantRun}
    (prepares : symQuantCntx globalCntx stated run.call run.groupSize =
      .ok lcntx)
    (requested : Requested engine .s8 lcntx run) :
    run.lcntx.blksz.NR = (stated.statedBlksz globalCntx.blksz).NR ∧
      run.lcntx.blksz.NC =
        roundUp (stated.statedBlksz globalCntx.blksz).NC
          run.kernel.dims.nr ∧
      run.lcntx.blksz.KC =
        symQuantKC (stated.statedBlksz globalCntx.blksz).KC run.groupSize
          run.call.n run.call.k := by
  have init := initialised_of_some requested.inits
  have blocks := symQuantCntx_blksz requested.legal prepares
  rw [init.blksz, init.returned.kc, blocks]
  exact ⟨rfl, rfl, rfl⟩

/-- The width of the kernel is the stated one outside the single column. -/
theorem run_nr {globalCntx : DlpGemmCntx} {engine : QuantEngine}
    {stated : DlpMetadata} {lcntx : DlpGemmCntx} {run : QuantRun}
    (prepares : symQuantCntx globalCntx stated run.call run.groupSize =
      .ok lcntx)
    (requested : Requested engine .s8 lcntx run)
    (panels : ¬ (run.call.n = 1 ∧ run.groupSize ∣ run.call.k)) :
    run.kernel.dims.nr = (stated.statedBlksz globalCntx.blksz).NR := by
  have init := initialised_of_some requested.inits
  rw [init.returned.dims, settledDims_nr,
    symQuantCntx_blksz requested.legal prepares]
  by_cases column : run.call.n = 1
  · refine Or.inr (Bool.eq_false_iff.mpr fun gate => panels ⟨column, ?_⟩)
    rw [← requested.normalised]
    exact dvd_of_gate gate
  · exact Or.inl column

/-- An `NC` rounds to the table's over the table's width. -/
theorem roundUp_eq_table_iff (NC : Nat) :
    roundUp NC 64 = 1024 ↔ 960 < NC ∧ NC ≤ 1024 := by
  unfold roundUp
  omega

theorem alignKc_symQuantKC {baseKC n k : Nat} (group : 0 < groupSize)
    (positive : 0 < baseKC) :
    dlpGemmAlignKcToGroup (symQuantKC baseKC groupSize n k) groupSize =
      dlpGemmAlignKcToGroup baseKC groupSize := by
  unfold symQuantKC
  split_ifs
  · exact alignKc_of_dvd (alignKc_pos group positive) (dvd_alignKc _ _)
  · rfl

/-- Where a group divides the K block, the reorder aligns it. -/
theorem reorderKC_eq_align {table : DlpGemmBlockSize} {k : Nat}
    (positive : 0 < table.KC) (keeps : groupSize ≠ k ∨ k ∣ table.KC) :
    reorderKC table groupSize k =
      dlpGemmAlignKcToGroup table.KC groupSize := by
  unfold reorderKC
  split_ifs with several
  · rfl
  · have whole := not_not.mp several
    rw [whole, alignKc_of_dvd positive (keeps.resolve_left several)]

/-- The panels that the S8S8 frame addresses. -/
theorem addressedLayout_panels {globalCntx : DlpGemmCntx}
    {engine : QuantEngine} {stated : DlpMetadata} {lcntx : DlpGemmCntx}
    {run : QuantRun} (positive : 0 < (stated.statedBlksz globalCntx.blksz).KC)
    (reordered : run.call.mtagB = .reordered)
    (prepares : symQuantCntx globalCntx stated run.call run.groupSize =
      .ok lcntx)
    (requested : Requested engine .s8 lcntx run)
    (panels : ¬ (run.call.n = 1 ∧ run.groupSize ∣ run.call.k)) :
    addressedLayout globalCntx run =
      .panels (stated.statedBlksz globalCntx.blksz).NR
        (roundUp (stated.statedBlksz globalCntx.blksz).NC
          (stated.statedBlksz globalCntx.blksz).NR)
        (if run.call.m = 1 ∧ run.groupSize ∣ run.call.k ∧
            (run.groupSize ≠ run.call.k ∨
              run.call.k ∣ globalCntx.blksz.KC) then
          dlpGemmAlignKcToGroup (stated.statedBlksz globalCntx.blksz).KC
            run.groupSize
        else reorderKC globalCntx.blksz run.groupSize run.call.k) := by
  have legal := requested.legal
  have gate := @takesGemv_iff globalCntx run.call run.groupSize legal
  rcases run_blksz prepares requested with ⟨width, columns, block⟩
  rw [run_nr prepares requested panels] at columns
  have frame : run.call.n ≠ 1 ∨ run.groupSize ≠ run.call.k := by
    by_contra both
    push Not at both
    exact panels ⟨both.1, dvd_of_eq both.2⟩
  have table : frameKC globalCntx run.call run.groupSize =
      reorderKC globalCntx.blksz run.groupSize run.call.k := by
    rw [frameKC_eq legal]
    unfold symQuantKC reorderKC
    split_ifs <;> first | rfl | omega
  unfold addressedLayout
  rw [width, columns, block, table, alignKc_symQuantKC legal.pos positive]
  unfold WholeGroups KeepsGroup at gate
  by_cases takes : TakesGemv globalCntx run.call run.groupSize
  · have holds := gate.mp takes
    have wide : run.call.n ≠ 1 := fun column => panels ⟨column, holds.1.2⟩
    have row := holds.2.resolve_left wide
    rw [if_pos takes, if_neg wide, if_pos ⟨row.1, holds.1.2, row.2⟩]
  · rw [if_neg takes, if_neg]
    rintro ⟨row, whole, keeps⟩
    exact takes (gate.mpr ⟨⟨reordered, whole⟩, Or.inr ⟨row, keeps⟩⟩)

/--
The blocks with which the sym-quant reorder lays B out are those with which
the GEMM addresses it exactly under `LayoutsAgree`.
-/
theorem symQuantLayouts_agree_iff {layout : BLayout}
    {outcome : Option QuantRun} (sameK : reorderArgs.k = args.gemm.k)
    (sameN : reorderArgs.n = args.gemm.n)
    (tag : dlpParamMapCharToLpmtag args.gemm.memFormatB = .reordered)
    (packs : aoclReorderS8s8s32os32SymQuant around reorderArgs
      (some metadata) = .ok layout)
    (succeeds : aoclGemmS8s8s32SymQuant around cDownscale args
      (some metadata) = .ok outcome) :
    ∃ run, outcome = some run ∧
      (layout = addressedLayout around.globalCntx run ↔
        LayoutsAgree around.globalCntx.blksz
          (metadata.cntx.statedBlksz around.globalCntx.blksz)
          args.gemm.m.toNat args.gemm.n.toNat args.gemm.k.toNat
          (groupSizeOf args.gemm.k metadata.bQuantOp).toNat) := by
  rcases some_of_reordered tag succeeds with ⟨run, rfl⟩
  refine ⟨run, rfl, ?_⟩
  rcases s8s8_of_some succeeds with
    ⟨aOp, bOp, lcntx, accepted, prepares, requested, accepts⟩
  have rowMajor := rowMajor_of_reordered tag accepts
  have table := around.tableBlksz
  rcases @frameCall_rowMajor cDownscale args aOp bOp tag accepted.checks
    rowMajor with ⟨rows, columns, reordered⟩
  have depth := frameCall_k args aOp bOp cDownscale
  rw [← accepted.call] at rows columns reordered depth
  have written := reorder_layout accepted.statesA accepted.statesB
    (sameK ▸ accepted.groupSize) packs
  rw [sameK, ← depth, sameN] at written
  have size : (groupSizeOf args.gemm.k metadata.bQuantOp).toNat =
      run.groupSize := by
    rw [accepted.statesB, ← accepted.groupSize]
    exact Int.toNat_natCast run.groupSize
  have single : args.gemm.n = 1 ↔ run.call.n = 1 := by
    have positive := (sized_of_check accepted.checks).n_pos
    omega
  simp only [single] at written
  rw [size, ← rows, ← columns, ← depth, written]
  unfold LayoutsAgree
  by_cases column : run.call.n = 1 ∧ run.groupSize ∣ run.call.k
  · rw [if_pos column]
    have takes := (@takesGemv_iff around.globalCntx run.call run.groupSize
      requested.legal).mpr ⟨⟨reordered, column.2⟩, Or.inl column.1⟩
    unfold addressedLayout
    rw [if_pos takes, if_pos column.1]
    exact ⟨fun _ => Or.inl column, fun _ => rfl⟩
  · have positive : 0 < around.globalCntx.blksz.KC := by
      have large := table.KC
      omega
    rw [if_neg column, addressedLayout_panels
        (metadata.cntx.statedBlksz_KC_pos positive) reordered prepares
        requested column, BLayout.panels.injEq, table.NR, table.NC]
    simp only [column, false_or]
    constructor
    · rintro ⟨width, panel, block⟩
      rw [← width] at panel
      refine ⟨width.symm, ((roundUp_eq_table_iff _).mp panel.symm).1,
        ((roundUp_eq_table_iff _).mp panel.symm).2, ?_⟩
      intro row wide whole keeps
      rw [if_pos ⟨row, whole, keeps⟩] at block
      rw [← block]
      exact reorderKC_eq_align positive keeps
    · rintro ⟨width, above, below, block⟩
      refine ⟨width.symm, ?_, ?_⟩
      · rw [width]
        exact ((roundUp_eq_table_iff _).mpr ⟨above, below⟩).symm
      · split_ifs with branch
        · have wide : run.call.n ≠ 1 := fun one => column ⟨one, branch.2.1⟩
          rw [block branch.1 wide branch.2.1 branch.2.2]
          exact reorderKC_eq_align positive branch.2.2
        · rfl

end Layouts

/-- A Zen5 machine whose generators emit every kernel. -/
def zen5Around : Surroundings where
  processor := ⟨false, true, true, true, true, .zen5, false⟩
  supThres := ⟨0, 0, 0⟩
  engine := ⟨fun _ => true, fun _ _ _ => true⟩
  rntm := ⟨1, -1, -1⟩
  postOps := .ok ()
  hasJitOnlyOp := false
  scaleBuffersFit := true

/-- One group over K, with a scale per row of A and per column of B, and the
caller's block sizes. -/
def singleGroup (m n : Int) (params : DlpGemmBlocking) : QuantMetadata where
  cntx := ⟨some params, none, none⟩
  seqLength := 0
  hasGlu := false
  aQuantOp := some ⟨.quantize, 0, none, some ⟨false, m, .f32, .perToken⟩,
    none⟩
  bQuantOp := some ⟨.quantize, 0, none, some ⟨false, n, .f32, .perChannel⟩,
    none⟩

/-- A row-major call over a reordered B, which overwrites its output. -/
def reorderedArgs (m n k : Int) : SymQuantArgs where
  gemm := ⟨'r', 'n', 'n', m, n, k, false, k, 'n', false, n, 'r', false, n⟩
  alpha := 1
  beta := 0

/-- A stated `KC` that K does not divide: the engine falls back to a GEMM
kernel, and the frame runs its GEMV branch. -/
def unevenKC : QuantMetadata :=
  singleGroup 1 64 ⟨0, 0, 100, 0, 0⟩

/-- With the table's blocks the gates agree on the same call. -/
theorem gemvGates_agree_iff_unstated :
    ∃ lcntx info threads,
      symQuantCntx zen5Around.globalCntx ⟨none, none, none⟩
          ⟨1, 64, 64, .unpacked, .reordered, 1, 0, 0, .f32⟩ 64 =
        .ok lcntx ∧
      dlpGetGemmQuantKernelInfoByDtype zen5Around.engine .s8
          ⟨1, 64, 64, .unpacked, .reordered, 1, 0, 0, .f32⟩ lcntx.blksz.MR
          lcntx.blksz.NR lcntx.blksz.KC lcntx.threadInfo =
        some (info, threads) ∧
      (info.IsGemvKey 1 64 ↔
        TakesGemv zen5Around.globalCntx
          ⟨1, 64, 64, .unpacked, .reordered, 1, 0, 0, .f32⟩ 64) := by
  refine ⟨_, _, _, rfl, rfl, ?_⟩
  refine ((@gemvGates_agree_iff zen5Around.globalCntx
    ⟨1, 64, 64, .unpacked, .reordered, 1, 0, 0, .f32⟩ 64
    zen5Around.tableBlksz (Or.inl rfl) rfl
    ⟨by decide, by decide, Or.inl rfl⟩ zen5Around.engine).1
    ⟨none, none, none⟩ _ _ _ rfl rfl).mpr ?_
  refine ⟨fun column => (by cases column), fun _ _ =>
    ⟨fun keeps => keeps.2.1, fun refused => ?_⟩⟩
  exact absurd ⟨⟨rfl, by decide⟩, Or.inr (by decide), by decide, by decide,
    by decide⟩ refused

/-- One row over a stated `KC` of 100: a GEMM key meets the GEMV branch. -/
theorem gemvGates_disagree :
    ∃ run, aoclGemmS8s8s32SymQuant zen5Around .f32 (reorderedArgs 1 64 64)
        (some unevenKC) = .ok (some run) ∧
      run.call.m = 1 ∧ run.call.n = 64 ∧
      ¬ (run.kernel.IsGemvKey run.call.m run.call.n ↔
        TakesGemv zen5Around.globalCntx run.call run.groupSize) :=
  ⟨_, rfl, rfl, rfl, by decide⟩

/-- The reorder of a row-major B. -/
def reorderOf (n k : Int) : ReorderArgs :=
  ⟨'r', 'n', 'b', false, false, k, n, n⟩

/-- A stated `NC` that rounds to the table's keeps the layouts together. -/
theorem symQuantLayouts_agree_iff_rounded :
    ∃ run, aoclGemmS8s8s32SymQuant zen5Around .f32
        (reorderedArgs 2 2048 64)
        (some (singleGroup 2 2048 ⟨0, 1000, 0, 0, 0⟩)) = .ok (some run) ∧
      .panels 64 1024 2048 = addressedLayout zen5Around.globalCntx run := by
  rcases @symQuantLayouts_agree_iff zen5Around .f32 (reorderedArgs 2 2048 64)
      (reorderOf 2048 64) (singleGroup 2 2048 ⟨0, 1000, 0, 0, 0⟩)
      (.panels 64 1024 2048) _ rfl rfl rfl rfl rfl with ⟨run, same, agrees⟩
  cases same
  refine ⟨_, rfl, agrees.mpr (Or.inr ⟨rfl, by decide, by decide, ?_⟩)⟩
  intro row
  cases row

/-- Under a stated `NC` of 512 the reorder lays out panels of 1024 columns and
the GEMM addresses panels of 512. -/
theorem symQuantLayouts_disagree :
    ∃ run, aoclReorderS8s8s32os32SymQuant zen5Around (reorderOf 2048 64)
        (some (singleGroup 2 2048 ⟨0, 512, 0, 0, 0⟩)) =
          .ok (.panels 64 1024 2048) ∧
      aoclGemmS8s8s32SymQuant zen5Around .f32 (reorderedArgs 2 2048 64)
        (some (singleGroup 2 2048 ⟨0, 512, 0, 0, 0⟩)) = .ok (some run) ∧
      addressedLayout zen5Around.globalCntx run = .panels 64 512 2048 :=
  ⟨_, rfl, rfl, by decide⟩

end AoclDlp.Quant.Agreement
