import AoclDlp.Quant.Bf16s8

/-!
# Hinted panels under the quantising GEMM

The S8 reorder merges the metadata into its context and runs the candidate
search over the hints.  `aocl_gemm_bf16s8s32_impl` asks for its kernel with
the global context, so it walks a reordered B with the block sizes of the
table.  The two geometries agree exactly when the metadata states none but the
sizes of the table and the search over its hints does not prefer the narrow
tile.
-/

namespace AoclDlp.Quant.HintedPanel

open AoclDlp.Api.GemmCheck
open AoclDlp.Config.BlockSize
open AoclDlp.Config.LocalContext
open AoclDlp.DecisionEngine.KernelInit
open AoclDlp.DecisionEngine.PanelAgreement
open AoclDlp.DecisionEngine.ShapeModel
open AoclDlp.DecisionEngine.ThreadPartition
open AoclDlp.Foundations.Rounding
open AoclDlp.Quant.Bf16s8
open AoclDlp.Quant.GroupSize

/-! ## The candidate search -/

section Sweep

variable (adjustWays : AdjustWays)
  (input : GemmShapeModelInput)

/-- The cost of a tile under the split that the search gives it. -/
def tileCost (dims : KernelDims) : Nat :=
  input.costEval (input.resolveShape adjustWays dims)

/-- Every costed tile has the width that the caller fixed. -/
theorem considerCandidate_nr (fixed : input.frozen.NR = true)
    {best : Option (GemmShapeModelResult × Nat)} (candidate : KernelDims)
    (kept : ∀ choice, best = some choice → choice.1.nr = input.nr) :
    ∀ choice, input.considerCandidate adjustWays best candidate =
      some choice → choice.1.nr = input.nr := by
  intro choice chosen
  unfold GemmShapeModelInput.considerCandidate at chosen
  split at chosen
  next admissible =>
    have width : candidate.nr = input.nr := by
      by_contra differs
      simp [GemmShapeModelInput.isCandidateAdmissible,
        GemmShapeModelInput.isNRFixedByCaller, fixed, differs] at admissible
    cases best with
    | none =>
        cases chosen
        exact width
    | some incumbent =>
        dsimp only at chosen
        split at chosen
        · cases chosen
          exact width
        · cases chosen
          exact kept _ rfl
  next => exact kept choice chosen

theorem sweepCandidates_nr (fixed : input.frozen.NR = true)
    (candidates : List KernelDims) :
    (input.sweepCandidates adjustWays candidates).nr = input.nr := by
  have all : ∀ (rest : List KernelDims)
      (best : Option (GemmShapeModelResult × Nat)),
      (∀ choice, best = some choice → choice.1.nr = input.nr) →
      ∀ choice, rest.foldl (input.considerCandidate adjustWays) best =
        some choice → choice.1.nr = input.nr := by
    intro rest
    induction rest with
    | nil => exact fun best kept => kept
    | cons candidate rest ih =>
        intro best kept
        exact ih _ (considerCandidate_nr adjustWays input fixed candidate
          kept)
  unfold GemmShapeModelInput.sweepCandidates
  split
  · rfl
  next best cost found => exact all candidates none nofun _ found

/-- The search over the two tiles when only the rows are fixed. -/
theorem sweepCandidates_rows (free : input.frozen.NR = false)
    (fixed : input.frozen.MR = true) :
    (input.sweepCandidates adjustWays [⟨6, 64⟩, ⟨8, 48⟩]).nr =
      if input.mr = 6 then 64 else if input.mr = 8 then 48
      else input.nr := by
  have admits (candidate : KernelDims) :
      input.isCandidateAdmissible candidate =
        decide (candidate.mr = input.mr) := by
    by_cases same : candidate.mr = input.mr <;>
      simp [GemmShapeModelInput.isCandidateAdmissible,
        GemmShapeModelInput.isMRFixedByCaller,
        GemmShapeModelInput.isNRFixedByCaller, free, fixed, same]
  unfold GemmShapeModelInput.sweepCandidates
  simp only [List.foldl_cons, List.foldl_nil,
    GemmShapeModelInput.considerCandidate, admits]
  by_cases six : input.mr = 6
  · simp [six, GemmShapeModelInput.resolveShape,
      GemmShapeModelInput.deferSplit]
  · by_cases eight : input.mr = 8
    · simp [eight, GemmShapeModelInput.resolveShape,
        GemmShapeModelInput.deferSplit]
    · simp [six, eight, Ne.symm six, Ne.symm eight,
        GemmShapeModelInput.resolveShape, GemmShapeModelInput.deferSplit,
        GemmShapeModelInput.baselineKernelDims]

end Sweep

/-! ## What the caller states -/

/-- The S8 entry of the block-size table. -/
def s8Table (processor : Processor) : DlpGemmBlockSize :=
  dlpGemmCntxInitBlkszMap processor .s8s8s32os32

/-- The padded work of a tile for the hinted rows and threads. -/
def hintedCost (n k : Nat) (hints : DlpGemmHints) (dims : KernelDims) :
    Nat :=
  let input := makeModelInput 0 n k 6 64 ⟨false, false, false, false, false⟩
    hints.mHint hints.ntHint 0 0 0 true
  input.costEval (input.resolveShape int8AdjustWays dims)

/--
The hints select the 48-column tile: the machine has a search, the hints
describe several rows, the width is left open, and the tile is the only
admissible one or the cheaper one.
-/
def PicksNarrowTile (machine : Machine) (n k : Nat)
    (metadata : DlpMetadata) : Prop :=
  GemmBackend.isAnalyticalShapeModelArch machine.processor .s8 = true ∧
    1 < metadata.statedHints.mHint ∧ 0 < metadata.statedHints.ntHint ∧
    (metadata.stated.MR = 8 ∨ metadata.stated.MR ≤ 0 ∧
      hintedCost n k metadata.statedHints ⟨8, 48⟩ <
        hintedCost n k metadata.statedHints ⟨6, 64⟩)

/-- A size is unset or the table's. -/
def LeavesSize (stated : Int) (table : Nat) : Prop :=
  stated ≤ 0 ∨ stated = table

/-- The metadata states no other geometry than the table's. -/
structure FollowsTable (machine : Machine) (n k : Nat)
    (metadata : DlpMetadata) : Prop where
  NR : LeavesSize metadata.stated.NR (s8Table machine.processor).NR
  NC : LeavesSize metadata.stated.NC (s8Table machine.processor).NC
  KC : LeavesSize metadata.stated.KC (s8Table machine.processor).KC
  tile : metadata.stated.NR ≤ 0 → ¬ PicksNarrowTile machine n k metadata

/-! ## The merged context -/

/-- The merge enters the caller's settings over the table's. -/
structure Merged (engine : Engine) (metadata : DlpMetadata)
    (merged : DlpGemmCntx) : Prop where
  blksz : merged.blksz = alignUnset metadata.stated
    (mergeBlksz metadata.stated (s8Table engine.machine.processor))
  mask : merged.blkszSetMask = dlpGemmBlkszProvenance metadata.stated
  hints : merged.gemmKernelHints = metadata.statedHints

theorem s8Table_tile (processor : Processor) :
    (s8Table processor).MR = 6 ∧ (s8Table processor).NR = 64 ∧
      (s8Table processor).MC = 144 ∧ (s8Table processor).NC = 1024 := by
  unfold s8Table dlpGemmCntxInitBlkszMap withZen3Override
  split_ifs <;> exact ⟨rfl, rfl, rfl, rfl⟩

theorem merged_of_ok {engine : Engine} {supThres : DlpGemmSupThreshold}
    {metadata : DlpMetadata} {merged : DlpGemmCntx}
    (merges : dlpGemmUpdCntxWithMetadata (globalCntx engine .s8 supThres)
      (some metadata) = .ok merged) :
    Merged engine metadata merged := by
  refine ⟨?_, upd_mask rfl merges, upd_statedHints rfl merges⟩
  rw [upd_blksz merges]
  unfold DlpMetadata.statedBlksz DlpMetadata.stated
  cases metadata.blockParams with
  | some params => rfl
  | none =>
      rcases s8Table_tile engine.machine.processor with
        ⟨rows, columns, deep, wide⟩
      change s8Table engine.machine.processor = alignUnset ⟨0, 0, 0, 0, 0⟩
        (s8Table engine.machine.processor)
      rcases table : s8Table engine.machine.processor with
        ⟨MC, NC, KC, MR, NR⟩
      rw [table] at rows columns deep wide
      cases rows
      cases columns
      cases deep
      cases wide
      have rowsAligned : roundUp 144 6 = 144 := by decide
      have columnsAligned : roundUp 1024 64 = 1024 := by decide
      change _ = (⟨roundUp 144 6, roundUp 1024 64, KC, 6, 64⟩ :
        DlpGemmBlockSize)
      rw [rowsAligned, columnsAligned]

/-! ## The width of the panel -/

section Width

variable {engine : Engine} {metadata : DlpMetadata} {cntx : DlpGemmCntx}

/-- The input of the search that a reorder runs. -/
def reorderInput (n k : Nat) (cntx : DlpGemmCntx) : GemmShapeModelInput :=
  makeModelInput 0 n k cntx.blksz.MR cntx.blksz.NR cntx.blkszSetMask
    cntx.gemmKernelHints.mHint cntx.gemmKernelHints.ntHint 0 0 0 true

theorem panelNR_eq (machine : Machine) (n k : Nat) (cntx : DlpGemmCntx) :
    panelNR machine .s8 n k cntx =
      if GemmBackend.canUseAnalyticalShapeModel machine.processor
          (reorderInput n k cntx) .s8 then
        ((reorderInput n k cntx).sweepCandidates int8AdjustWays
          [⟨6, 64⟩, ⟨8, 48⟩]).nr
      else cntx.blksz.NR :=
  rfl

/-- A stated width is the width of the panel. -/
theorem panelNR_fixed (merged : Merged engine metadata cntx) (n k : Nat)
    (fixed : 0 < metadata.stated.NR) :
    panelNR engine.machine .s8 n k cntx = metadata.stated.NR.toNat := by
  have width : cntx.blksz.NR = metadata.stated.NR.toNat := by
    rw [merged.blksz]
    exact if_pos fixed
  have frozen : (reorderInput n k cntx).frozen.NR = true := by
    change cntx.blkszSetMask.NR = true
    rw [merged.mask]
    exact decide_eq_true fixed
  rw [panelNR_eq, sweepCandidates_nr int8AdjustWays _ frozen]
  exact (ite_self _).trans width

theorem canUse_merged (merged : Merged engine metadata cntx) {n : Nat}
    (columns : 2 ≤ n) (k : Nat) (unset : metadata.stated.NR ≤ 0) :
    GemmBackend.canUseAnalyticalShapeModel engine.machine.processor
        (reorderInput n k cntx) .s8 =
      (GemmBackend.isAnalyticalShapeModelArch engine.machine.processor .s8 &&
        decide (1 < metadata.statedHints.mHint) &&
        decide (0 < metadata.statedHints.ntHint)) := by
  have wide : 1 < n := columns
  have free : cntx.blkszSetMask.NR = false := by
    rw [merged.mask]
    exact decide_eq_false (not_lt.mpr unset)
  simp only [GemmBackend.canUseAnalyticalShapeModel, reorderInput,
    makeModelInput, GemmShapeModelInput.isEligible,
    GemmShapeModelInput.isTilePinnedByCaller, merged.hints, free, wide,
    if_true]
  cases GemmBackend.isAnalyticalShapeModelArch engine.machine.processor .s8
    with
  | false => rfl
  | true =>
      by_cases rows : 1 < metadata.statedHints.mHint <;>
        by_cases threads : 0 < metadata.statedHints.ntHint <;>
          simp [rows, threads]

/-- An open width is 64 columns unless the hints select the narrow tile. -/
theorem panelNR_open (merged : Merged engine metadata cntx) {n : Nat}
    (columns : 2 ≤ n) (k : Nat) (unset : metadata.stated.NR ≤ 0) :
    panelNR engine.machine .s8 n k cntx = 64 ↔
      ¬ PicksNarrowTile engine.machine n k metadata := by
  rcases s8Table_tile engine.machine.processor with ⟨rows, width, -, -⟩
  have NR : cntx.blksz.NR = 64 := by
    rw [merged.blksz]
    exact (if_neg (not_lt.mpr unset)).trans width
  have MR : cntx.blksz.MR = statedOr metadata.stated.MR 6 := by
    rw [merged.blksz, ← rows]
    rfl
  have maskNR : (reorderInput n k cntx).frozen.NR = false := by
    change cntx.blkszSetMask.NR = false
    rw [merged.mask]
    exact decide_eq_false (not_lt.mpr unset)
  have maskMR : (reorderInput n k cntx).frozen.MR =
      decide (0 < metadata.stated.MR) := by
    change cntx.blkszSetMask.MR = _
    rw [merged.mask]
    rfl
  rw [panelNR_eq, canUse_merged merged columns k unset]
  unfold PicksNarrowTile
  cases arch : GemmBackend.isAnalyticalShapeModelArch
      engine.machine.processor .s8 with
  | false => simp [NR]
  | true =>
      by_cases hinted : 1 < metadata.statedHints.mHint ∧
          0 < metadata.statedHints.ntHint
      · rw [decide_eq_true hinted.1, decide_eq_true hinted.2]
        simp only [Bool.and_self, if_true, hinted, true_and]
        by_cases fixed : 0 < metadata.stated.MR
        · rw [sweepCandidates_rows int8AdjustWays _ maskNR
            (maskMR.trans (decide_eq_true fixed))]
          have height : (reorderInput n k cntx).mr =
              metadata.stated.MR.toNat := MR.trans (if_pos fixed)
          change (if (reorderInput n k cntx).mr = 6 then 64
            else if (reorderInput n k cntx).mr = 8 then 48
            else cntx.blksz.NR) = 64 ↔ _
          rw [height, NR]
          split_ifs <;> omega
        · have free := maskMR.trans (decide_eq_false fixed)
          rw [GemmShapeModelInput.sweepCandidates_pair int8AdjustWays
            (GemmShapeModelInput.admissible_of_free free maskNR _)
            (GemmShapeModelInput.admissible_of_free free maskNR _)]
          have same (dims : KernelDims) :
              (reorderInput n k cntx).costEval
                  ((reorderInput n k cntx).resolveShape int8AdjustWays
                    dims) =
                hintedCost n k metadata.statedHints dims := by
            unfold hintedCost reorderInput
            rw [merged.hints]
            rfl
          rw [same, same]
          change (if hintedCost n k metadata.statedHints ⟨8, 48⟩ <
              hintedCost n k metadata.statedHints ⟨6, 64⟩ then 48
            else 64) = 64 ↔ _
          split_ifs <;> omega
      · have absent : (decide (1 < metadata.statedHints.mHint) &&
            decide (0 < metadata.statedHints.ntHint)) = false := by
          simpa using hinted
        rw [Bool.true_and, absent]
        simp only [Bool.false_eq_true, if_false, NR, true_iff]
        rintro ⟨-, several, threads, -⟩
        exact hinted ⟨several, threads⟩

/-- The panel has the table's width exactly when nothing moves it. -/
theorem panelNR_eq_table_iff (merged : Merged engine metadata cntx)
    {n : Nat} (columns : 2 ≤ n) (k : Nat) :
    panelNR engine.machine .s8 n k cntx = 64 ↔
      LeavesSize metadata.stated.NR 64 ∧
        (metadata.stated.NR ≤ 0 →
          ¬ PicksNarrowTile engine.machine n k metadata) := by
  by_cases fixed : 0 < metadata.stated.NR
  · rw [panelNR_fixed merged n k fixed]
    unfold LeavesSize
    omega
  · have unset := not_lt.mp fixed
    rw [panelNR_open merged columns k unset]
    exact ⟨fun keeps => ⟨Or.inl unset, fun _ => keeps⟩,
      fun keeps => keeps.2 unset⟩

end Width

/-! ## The two geometries -/

/-- The block sizes of an S8 reorder that succeeds. -/
structure PackedGeometry (engine : Engine) (metadata : DlpMetadata)
    (n k : Nat) (reordered : DlpGemmCntx) : Prop where
  supported : supportsPackB engine.machine.processor .s8 = true
  NR : reordered.blksz.NR = 64 ↔
    LeavesSize metadata.stated.NR 64 ∧
      (metadata.stated.NR ≤ 0 →
        ¬ PicksNarrowTile engine.machine n k metadata)
  NC : reordered.blksz.NR = 64 → (reordered.blksz.NC = 1024 ↔
    LeavesSize metadata.stated.NC 1024)
  KC : reordered.blksz.KC = statedOr metadata.stated.KC
    (s8Table engine.machine.processor).KC

theorem validated_NC {metadata : DlpMetadata} {settled : DlpGemmCntx}
    (validates : dlpGemmValidateMetadataWithLcntx settled (some metadata) =
      .ok ()) (fixed : 0 < metadata.stated.NC) :
    settled.blksz.NC = metadata.stated.NC.toNat := by
  cases given : metadata.blockParams with
  | none =>
      unfold DlpMetadata.stated at fixed
      rw [given] at fixed
      exact absurd fixed (by decide)
  | some params =>
      have sizes := validated_blockParams given validates
      have same : metadata.stated = params := by
        unfold DlpMetadata.stated
        rw [given]
        rfl
      rw [same] at fixed ⊢
      simp only [validateBlockParams, Bool.and_eq_true] at sizes
      exact keepsStated_eq fixed sizes.1.1.2

theorem packedGeometry_of_ok {engine : Engine}
    {supThres : DlpGemmSupThreshold} {metadata : DlpMetadata}
    {n k csB : Nat} {reordered : DlpGemmCntx} (columns : 2 ≤ n)
    (succeeds : nativeReorderCntx engine .s8 supThres n k csB
      (some metadata) = .ok reordered) :
    PackedGeometry engine metadata n k reordered := by
  rcases bind_ok succeeds with ⟨merged, merges, packs⟩
  rcases bind_ok packs with ⟨_, _, packs⟩
  dsimp only at packs
  split at packs
  next yields =>
    rcases bind_ok packs with ⟨_, validates, done⟩
    cases done
    rcases packb_of_kernel yields with ⟨supported, positive⟩
    have settles := packb_blksz n k csB supported positive
    have entered := merged_of_ok merges
    have width := panelNR_eq_table_iff entered columns k
    rcases s8Table_tile engine.machine.processor with ⟨-, table, -, wide⟩
    refine ⟨supported, ?_, ?_, ?_⟩
    · rw [settles]
      exact width
    · intro default
      have panel : panelNR engine.machine .s8 n k merged = 64 := by
        rw [settles] at default
        exact default
      by_cases fixed : 0 < metadata.stated.NC
      · rw [validated_NC validates fixed]
        unfold LeavesSize
        omega
      · have unset := not_lt.mp fixed
        have merge : merged.blksz.NC = 1024 := by
          have leaves := (width.mp panel).1
          have NR : statedOr metadata.stated.NR 64 = 64 := by
            unfold statedOr
            unfold LeavesSize at leaves
            split_ifs <;> omega
          rw [entered.blksz]
          change (if metadata.stated.NC ≤ 0 then
            roundUp (statedOr metadata.stated.NC
                (s8Table engine.machine.processor).NC)
              (statedOr metadata.stated.NR
                (s8Table engine.machine.processor).NR) else _) = 1024
          rw [if_pos unset, table, wide, NR, statedOr, if_neg fixed]
          decide
        refine iff_of_true ?_ (Or.inl unset)
        rw [settles, panel]
        change roundUp merged.blksz.NC 64 = 1024
        rw [merge]
        decide
    · rw [settles]
      change merged.blksz.KC = _
      rw [entered.blksz]
      rfl
  next => cases packs

/-- The global context is the merge of a metadata that states nothing. -/
theorem merged_global (engine : Engine) (supThres : DlpGemmSupThreshold) :
    Merged engine ⟨none, none, none⟩ (globalCntx engine .s8 supThres) :=
  merged_of_ok rfl

/-- The quantising GEMM walks a reordered panel by the table. -/
theorem settledCntx_table {around : Bf16s8Surroundings} {call : GemmCall}
    (supported : supportsPackB around.engine.machine.processor .s8 = true)
    (columns : 2 ≤ call.n) (tag : call.mtagB = .reordered)
    (holds : (settledCntx around call).hasKernel = true) :
    (settledCntx around call).blksz.NR = 64 ∧
      (settledCntx around call).blksz.NC = 1024 ∧
      (settledCntx around call).blksz.KC =
        (s8Table around.engine.machine.processor).KC := by
  let cntx := globalCntx around.engine .s8 around.supThres
  rcases s8Table_tile around.engine.machine.processor with
    ⟨-, -, -, wide⟩
  have panel : panelNR around.engine.machine .s8 call.n call.k cntx = 64 :=
    (panelNR_eq_table_iff (merged_global around.engine around.supThres)
      columns call.k).mpr
        ⟨Or.inl le_rfl, fun _ picks => absurd picks.2.1 (by decide)⟩
  rcases kernel_settles holds with ⟨info, threads, found, settles⟩
  rcases kernelInfo_over_reordered supported columns tag found with
    ⟨width, kc⟩
  have width : info.dims.nr = 64 := width.trans panel
  have divides : 4 ∣ (s8Table around.engine.machine.processor).KC :=
    kPackFactor_dvd_KC around.engine.machine.processor .s8
  refine ⟨settles.NR.trans width, ?_, ?_⟩
  · rw [settledCntx, settles.NC, width]
    change roundUp (s8Table around.engine.machine.processor).NC 64 = 1024
    rw [wide]
    decide
  · rw [settledCntx, settles.KC]
    rcases kc with rounded | ⟨other, -⟩
    · exact rounded.trans (roundUp_of_dvd (by decide) divides)
    · cases other

/-- The call that the checks let through has the caller's sizes. -/
theorem call_of_check {around : Bf16s8Surroundings} {args : Bf16s8Args}
    {metadata : Option QuantMetadata} {call : GemmCall}
    (passes : checkBf16s8 around args metadata = .ok call)
    (tag : dlpParamMapCharToLpmtag args.gemm.memFormatB = .reordered) :
    call.n = args.gemm.n.toNat ∧ call.k = args.gemm.k.toNat ∧
      call.mtagB = .reordered := by
  rcases bind_ok passes with ⟨_, -, passes⟩
  rcases bind_ok passes with ⟨_, -, passes⟩
  rcases bind_ok passes with ⟨_, -, passes⟩
  rcases bind_ok passes with ⟨_, -, passes⟩
  rcases bind_ok passes with ⟨_, -, passes⟩
  cases passes
  refine ⟨rfl, rfl, ?_⟩
  dsimp only
  rw [tag]
  rfl

/-- A 48 by 96 product of depth 64 over a reordered B. -/
def panelArgs : Bf16s8Args :=
  ⟨⟨'r', 'n', 'n', 48, 96, 64, false, 64, 'n', false, 96, 'r', false, 96⟩,
    1, 0⟩

/-- Per-tensor parameters with the given context settings. -/
def panelMetadata (cntx : DlpMetadata) : QuantMetadata :=
  { perTensor false with cntx := cntx }

end AoclDlp.Quant.HintedPanel
