import AoclDlp.DecisionEngine.UnhintedPanel
import AoclDlp.Foundations.Checked

/-!
# The range of the inits

Block sizes are signed 64-bit in the source and naturals here.  The merge of a
metadata, the kernel-info folds and the two inits round block sizes up, and
the sum of such a rounding can leave the 64-bit type for a stated size near
its maximum.  This module says which roundings a native reorder and a GEMM
evaluate; the naturals describe the calls all of whose roundings stay in the
type.
-/

namespace AoclDlp.DecisionEngine.InitRange

open AoclDlp.Config.BlockSize
open AoclDlp.Config.LocalContext
open AoclDlp.DecisionEngine.KernelInit
open AoclDlp.DecisionEngine.PanelAgreement
open AoclDlp.DecisionEngine.ShapeModel
open AoclDlp.DecisionEngine.UnhintedPanel
open AoclDlp.Foundations.Checked
open AoclDlp.Foundations.Rounding

/-! ## The roundings of each step -/

/-- The roundings of `dlp_gemm_upd_cntx_with_metadata`. -/
def updStays (blksz : DlpGemmBlockSize) (metadata : Option DlpMetadata) :
    Bool :=
  match metadata.bind DlpMetadata.blockParams with
  | none => true
  | some params =>
      let merged := mergeBlksz params blksz
      (decide (0 < params.MC) || roundUpStays merged.MC merged.MR) &&
        (decide (0 < params.NC) || roundUpStays merged.NC merged.NR)

/-- The rounding of `KC` in the kernel-info folds; the rerouted F32 folds
round nothing. -/
def kernelInfoStays (engine : Engine) (backend : GemmBackend)
    (call : GemmCall) (hints : Hints) : Bool :=
  let processor := engine.machine.processor
  if canGenerateKernelInfo processor backend then
    if backend = .bf16 ∧ processor.isAvx512Bf16Configured = false then true
    else if call.n = 1 then
      roundUpStays hints.kcHint (kPackFactor backend)
    else if call.m = 1 then
      let kc := match backend with
        | .bf16 => 4096
        | .u8s8 | .s8 => hints.kcHint
      roundUpStays kc (kPackFactor backend)
    else if hints.mrHint ≤ 1 ∨ hints.nrHint ≤ 1 then true
    else roundUpStays hints.kcHint (kPackFactor backend)
  else true

/-- The roundings of `dlp_init_and_get_kernel_hndl`. -/
def kernelInitStays (engine : Engine) (backend : GemmBackend)
    (call : GemmCall) (cntx : DlpGemmCntx) : Bool :=
  kernelInfoStays engine backend call (hintsOf cntx) &&
    match dlpGetGemmKernelInfoByDtype engine backend call (hintsOf cntx) with
    | none => true
    | some (info, _) =>
        decide (info.dims.mr = 0 ∨ info.dims.nr = 0) ||
          (roundUpStays cntx.blksz.MC info.dims.mr &&
            roundUpStays cntx.blksz.NC info.dims.nr)

/-- The rounding of `dlp_init_and_get_packb_kernel_hndl`. -/
def packBInitStays (engine : Engine) (backend : GemmBackend) (n k : Nat)
    (cntx : DlpGemmCntx) : Bool :=
  match packBPanelDim engine.machine backend n k cntx with
  | none => true
  | some panelDim =>
      decide (panelDim = 0) || roundUpStays cntx.blksz.NC panelDim

/-! ## The entry sequences -/

/-- The roundings of a native reorder stay in the 64-bit type. -/
def nativeReorderStays (engine : Engine) (backend : GemmBackend)
    (supThres : DlpGemmSupThreshold) (n k : Nat)
    (metadata : Option DlpMetadata) : Bool :=
  let cntx := globalCntx engine backend supThres
  updStays cntx.blksz metadata &&
    match dlpGemmUpdCntxWithMetadata cntx metadata with
    | .error _ => true
    | .ok lcntx =>
        match dlpGemmValidateHints lcntx with
        | .error _ => true
        | .ok () => packBInitStays engine backend n k lcntx

/-- The roundings of a GEMM call stay in the 64-bit type. -/
def gemmStays (engine : Engine) (backend : GemmBackend)
    (supThres : DlpGemmSupThreshold) (call : GemmCall)
    (metadata : Option DlpMetadata) : Bool :=
  let skipsMerge := decide (backend = .bf16) &&
    !engine.machine.processor.avx512bf16
  (skipsMerge || updStays (globalCntx engine backend supThres).blksz
      metadata) &&
    match mergedCall engine backend supThres call metadata with
    | .error _ => true
    | .ok (lcntx, call) =>
        match dlpGemmValidateHintsWithCall lcntx call.mtagB
            call.rntm.numThreads call.rntm.icWays call.rntm.jcWays with
        | .error _ => true
        | .ok () =>
            kernelInitStays engine backend call lcntx &&
              let settled := dlpInitAndGetKernelHndl engine backend call
                lcntx
              (!settled.hasKernel ||
                packBInitStays engine backend call.n call.k settled)

/-! ## The roundings over a merged context -/

section Merged

variable {engine : Engine} {backend : GemmBackend}
  {supThres : DlpGemmSupThreshold} {metadata : Option DlpMetadata}
  {merged : DlpGemmCntx} {call : GemmCall} {info : KernelInfo}
  {threads : DlpGemmThreadInfo}

/-- An admitted call rounds in the merge and in its inits. -/
theorem gemmStays_iff
    (supported : supportsPackB engine.machine.processor backend = true)
    (merges : dlpGemmUpdCntxWithMetadata (globalCntx engine backend supThres)
      metadata = .ok merged)
    (admitted : dlpGemmValidateHintsWithCall (merged.withThreads call.rntm)
      call.mtagB call.rntm.numThreads call.rntm.icWays call.rntm.jcWays =
        .ok ()) :
    gemmStays engine backend supThres call metadata = true ↔
      updStays (globalCntx engine backend supThres).blksz metadata = true ∧
        kernelInitStays engine backend call
          (merged.withThreads call.rntm) = true ∧
        ((dlpInitAndGetKernelHndl engine backend call
            (merged.withThreads call.rntm)).hasKernel = true →
          packBInitStays engine backend call.n call.k
            (dlpInitAndGetKernelHndl engine backend call
              (merged.withThreads call.rntm)) = true) := by
  have merge : (decide (backend = .bf16) &&
      !engine.machine.processor.avx512bf16) = false := by
    cases backend with
    | bf16 =>
        have configured :
            engine.machine.processor.isAvx512Bf16Configured = true :=
          supported
        have detected : engine.machine.processor.avx512bf16 = true :=
          (Bool.and_eq_true_iff.mp configured).2
        rw [detected]
        rfl
    | u8s8 => rfl
    | s8 => rfl
  unfold gemmStays
  dsimp only
  rw [merge, Bool.false_or, mergedCall_native supported, merges]
  dsimp only [Except.map]
  rw [admitted]
  dsimp only
  rw [Bool.and_eq_true, Bool.and_eq_true, Bool.or_eq_true,
    Bool.not_eq_true', ← imp_iff_not_or.trans (or_congr_left
      (Bool.not_eq_true _).to_iff)]

/-- The roundings of a kernel init that finds a tile. -/
theorem kernelInitStays_iff {cntx : DlpGemmCntx}
    (found : dlpGetGemmKernelInfoByDtype engine backend call
      (hintsOf cntx) = some (info, threads))
    (high : info.dims.mr ≠ 0) (wide : info.dims.nr ≠ 0) :
    kernelInitStays engine backend call cntx = true ↔
      kernelInfoStays engine backend call (hintsOf cntx) = true ∧
        cntx.blksz.MC + info.dims.mr < 2 ^ 63 ∧
        cntx.blksz.NC + info.dims.nr < 2 ^ 63 := by
  have sized : ¬ (info.dims.mr = 0 ∨ info.dims.nr = 0) :=
    not_or.mpr ⟨high, wide⟩
  unfold kernelInitStays
  rw [found]
  dsimp only
  rw [decide_eq_false sized, Bool.false_or, Bool.and_eq_true,
    Bool.and_eq_true, roundUpStays_iff (Nat.pos_of_ne_zero high),
    roundUpStays_iff (Nat.pos_of_ne_zero wide)]

/-- A kernel init without a tile rounds at most `KC`. -/
theorem kernelInitStays_none {cntx : DlpGemmCntx}
    (found : dlpGetGemmKernelInfoByDtype engine backend call
      (hintsOf cntx) = none) :
    kernelInitStays engine backend call cntx =
      kernelInfoStays engine backend call (hintsOf cntx) := by
  unfold kernelInitStays
  rw [found]
  exact Bool.and_true _

/-- A pack-B init of the context's own width rounds `NC` to it. -/
theorem packBInitStays_iff {n k : Nat} {cntx : DlpGemmCntx}
    (supported : supportsPackB engine.machine.processor backend = true)
    (width : panelNR engine.machine backend n k cntx = cntx.blksz.NR)
    (positive : cntx.blksz.NR ≠ 0) :
    packBInitStays engine backend n k cntx = true ↔
      cntx.blksz.NC + cntx.blksz.NR < 2 ^ 63 := by
  unfold packBInitStays packBPanelDim
  rw [if_pos supported, width]
  dsimp only
  rw [decide_eq_false positive, Bool.false_or,
    roundUpStays_iff (Nat.pos_of_ne_zero positive)]

end Merged

/-! ## The roundings over an accepted panel -/

section Undescribed

variable {engine : Engine} {backend : GemmBackend} {cntx : DlpGemmCntx}
  {call : GemmCall}

/-- The depth that a native kernel info rounds, if it rounds one. -/
theorem kernelInfoStays_iff
    (supported : supportsPackB engine.machine.processor backend = true)
    (columns : 2 ≤ call.n) :
    kernelInfoStays engine backend call (hintsOf cntx) = true ↔
      if call.m = 1 then
        gemvKc backend cntx.blksz.KC + kPackFactor backend < 2 ^ 63
      else
        ¬ (cntx.blksz.MR ≤ 1 ∨ cntx.blksz.NR ≤ 1) →
          cntx.blksz.KC + kPackFactor backend < 2 ^ 63 := by
  have wide : ¬ call.n = 1 := by omega
  have pack : 0 < kPackFactor backend := by cases backend <;> decide
  have able : canGenerateKernelInfo engine.machine.processor backend =
      true := by
    cases backend with
    | bf16 => rfl
    | u8s8 => exact supported
    | s8 => exact supported
  have native : ¬ (backend = .bf16 ∧
      engine.machine.processor.isAvx512Bf16Configured = false) := by
    rintro ⟨rfl, lacks⟩
    rw [supportsPackB, lacks] at supported
    cases supported
  unfold kernelInfoStays
  dsimp only
  rw [if_pos able, if_neg native, if_neg wide]
  by_cases single : call.m = 1
  · rw [if_pos single, if_pos single, ← roundUpStays_iff pack]
    cases backend <;> rfl
  · rw [if_neg single, if_neg single]
    by_cases flat : cntx.blksz.MR ≤ 1 ∨ cntx.blksz.NR ≤ 1
    · exact iff_of_true (if_pos flat) fun tall => absurd flat tall
    · have tall : ¬ ((hintsOf cntx).mrHint ≤ 1 ∨
          (hintsOf cntx).nrHint ≤ 1) := flat
      rw [if_neg tall, ← roundUpStays_iff pack]
      exact ⟨fun stays _ => stays, fun stays => stays flat⟩

end Undescribed

theorem table_small (processor : Processor) (backend : GemmBackend) :
    let table := dlpGemmCntxInitBlkszMap processor (operationType backend)
    table.MC < 2 ^ 16 ∧ table.KC < 2 ^ 16 ∧ table.NC = 1024 ∧
      4 ∣ table.KC := by
  unfold dlpGemmCntxInitBlkszMap withZen3Override
  cases backend <;> dsimp only <;> split_ifs <;>
    exact ⟨by decide, by decide, rfl, by decide⟩

/-- An accepted panel whose reorder rounded within the 64-bit type. -/
structure RangedPanel (engine : Engine) (backend : GemmBackend)
    (supThres : DlpGemmSupThreshold) (metadata : DlpMetadata)
    (merged : DlpGemmCntx) : Prop extends
    AcceptedPanel engine backend supThres metadata merged where
  merge : updStays (globalCntx engine backend supThres).blksz
    (some metadata) = true
  columns : merged.blksz.NC + merged.blksz.NR < 2 ^ 63

section Ranged

variable {engine : Engine} {backend : GemmBackend}
  {supThres : DlpGemmSupThreshold} {metadata : DlpMetadata}
  {merged : DlpGemmCntx} {call : GemmCall} {info : KernelInfo}
  {threads : DlpGemmThreadInfo}

theorem rangedPanel_of_ok {n k csB : Nat} {reordered : DlpGemmCntx}
    (unhinted : Unhinted metadata)
    (stays : nativeReorderStays engine backend supThres n k
      (some metadata) = true)
    (packs : nativeReorder engine backend supThres n k csB (some metadata) =
      .ok reordered) :
    ∃ merged, RangedPanel engine backend supThres metadata merged := by
  rcases acceptedPanel_of_ok unhinted packs with ⟨merged, panel⟩
  have width := panelNR_undescribed panel.absent engine.machine backend n k
  unfold nativeReorderStays at stays
  dsimp only at stays
  rw [panel.merges] at stays
  dsimp only at stays
  rw [panel.hints, Bool.and_eq_true] at stays
  refine ⟨merged, panel, stays.1, ?_⟩
  exact (packBInitStays_iff panel.supported width panel.NR_pos).mp stays.2

/-- The merge and the validator leave a whole number of panels. -/
theorem RangedPanel.panels
    (panel : RangedPanel engine backend supThres metadata merged) :
    merged.blksz.NR ∣ merged.blksz.NC := by
  have table := table_small engine.machine.processor backend
  have tile := table_tile engine.machine.processor backend
  have kept := panel.NC
  have blksz := upd_blksz panel.merges
  unfold DlpMetadata.statedBlksz at blksz
  unfold DlpMetadata.stated at kept
  cases given : metadata.blockParams with
  | none =>
      rw [given] at blksz
      dsimp only at blksz
      rw [blksz]
      change (dlpGemmCntxInitBlkszMap _ _).NR ∣
        (dlpGemmCntxInitBlkszMap _ _).NC
      rw [tile.2, table.2.2.1]
      decide
  | some params =>
      rw [given] at blksz kept
      dsimp only [Option.getD_some] at blksz kept
      by_cases stated : 0 < params.NC
      · have size : merged.blksz.NC = params.NC.toNat := by
          rw [blksz]
          exact (if_neg (not_le.mpr stated)).trans (if_pos stated)
        have same := (keepsStated_iff.mp kept).resolve_left
          (not_le.mpr stated)
        have whole : roundUp merged.blksz.NC merged.blksz.NR =
            merged.blksz.NC := by omega
        rw [← whole]
        exact dvd_roundUp _ _
      · rw [blksz]
        change _ ∣ if params.NC ≤ 0 then _ else _
        rw [if_pos (not_lt.mp stated)]
        exact dvd_roundUp _ _

/-- Unset blocks keep the sizes of the tables, `MC` up to its rounding. -/
theorem RangedPanel.unset
    (panel : RangedPanel engine backend supThres metadata merged) :
    (metadata.stated.MC ≤ 0 →
      merged.blksz.MC < 2 ^ 16 + merged.blksz.MR) ∧
    (metadata.stated.KC ≤ 0 → merged.blksz.KC < 2 ^ 16) := by
  have table := table_small engine.machine.processor backend
  have tile := table_tile engine.machine.processor backend
  have blksz := upd_blksz panel.merges
  unfold DlpMetadata.statedBlksz at blksz
  unfold DlpMetadata.stated
  cases given : metadata.blockParams with
  | none =>
      rw [given] at blksz
      dsimp only at blksz
      rw [blksz]
      exact ⟨fun _ => Nat.lt_add_right _ table.1, fun _ => table.2.1⟩
  | some params =>
      rw [given] at blksz
      dsimp only [Option.getD_some] at blksz ⊢
      rw [blksz]
      refine ⟨fun free => ?_, fun free => ?_⟩
      · change (if params.MC ≤ 0 then roundUp (statedOr params.MC _)
          (statedOr params.MR _) else _) < _ + statedOr params.MR _
        have small : statedOr params.MC
            (globalCntx engine backend supThres).blksz.MC < 2 ^ 16 := by
          rw [statedOr, if_neg (not_lt.mpr free)]
          exact table.1
        have positive : 0 < statedOr params.MR
            (globalCntx engine backend supThres).blksz.MR :=
          statedOr_pos _ (by
            change 0 < (dlpGemmCntxInitBlkszMap _ _).MR
            rw [tile.1]
            decide)
        rw [if_pos free]
        exact (roundUp_lt positive _).trans_le
          (Nat.add_le_add_right small.le _)
      · change statedOr params.KC _ < _
        rw [statedOr, if_neg (not_lt.mpr free)]
        exact table.2.1

/-- A call that finds a tile of the panel's width leaves the type only at
its depth or at the rounding of `MC`. -/
theorem RangedPanel.gemmStays_iff
    (panel : RangedPanel engine backend supThres metadata merged)
    (found : dlpGetGemmKernelInfoByDtype engine backend call
      (hintsOf (merged.withThreads call.rntm)) = some (info, threads))
    (high : 0 < info.dims.mr) (width : info.dims.nr = merged.blksz.NR) :
    gemmStays engine backend supThres call (some metadata) = true ↔
      kernelInfoStays engine backend call
          (hintsOf (merged.withThreads call.rntm)) = true ∧
        merged.blksz.MC + info.dims.mr < 2 ^ 63 := by
  have wide : info.dims.nr ≠ 0 := by
    rw [width]
    exact panel.NR_pos
  have columns : (merged.withThreads call.rntm).blksz.NC + info.dims.nr <
      2 ^ 63 := by
    rw [width]
    exact panel.columns
  rw [InitRange.gemmStays_iff panel.supported panel.merges
    (admitted_undescribed panel.hints panel.absent call),
    kernelInitStays_iff found high.ne' wide]
  constructor
  · rintro ⟨-, kernel, -⟩
    exact ⟨kernel.1, kernel.2.1⟩
  · rintro ⟨depth, rows⟩
    refine ⟨panel.merge, ⟨depth, rows, columns⟩, fun yields => ?_⟩
    rcases kernel_settles yields with ⟨chosen, _, same, settles⟩
    cases found.symm.trans same
    have kept := backend.reorderedPanelNR_of_settled engine.machine
      settles.maskMR settles.maskNR call.n call.k
    rw [packBInitStays_iff panel.supported (kept _ _ _)
      (settles.NR.trans_ne wide), settles.NC, settles.NR]
    have whole : info.dims.nr ∣ (merged.withThreads call.rntm).blksz.NC := by
      rw [width]
      exact panel.panels
    rw [roundUp_of_dvd (Nat.pos_of_ne_zero wide) whole]
    exact columns

/-- A call that finds no tile leaves the type only at its depth. -/
theorem RangedPanel.gemmStays_none
    (panel : RangedPanel engine backend supThres metadata merged)
    (found : dlpGetGemmKernelInfoByDtype engine backend call
      (hintsOf (merged.withThreads call.rntm)) = none)
    (depth : kernelInfoStays engine backend call
      (hintsOf (merged.withThreads call.rntm)) = true) :
    gemmStays engine backend supThres call (some metadata) = true := by
  refine (InitRange.gemmStays_iff panel.supported panel.merges
    (admitted_undescribed panel.hints panel.absent call)).mpr
      ⟨panel.merge, ?_, fun yields => ?_⟩
  · rw [kernelInitStays_none found]
    exact depth
  · rw [kernel_absent found] at yields
    cases yields

end Ranged

end AoclDlp.DecisionEngine.InitRange
