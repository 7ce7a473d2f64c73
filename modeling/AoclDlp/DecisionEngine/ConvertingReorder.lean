import AoclDlp.DecisionEngine.PanelAgreement

/-!
# The converting reorder

`aocl_reorder_f32obf16` narrows an F32 matrix and packs it into the panel that
the BF16 GEMM reads.  It merges the caller's metadata into a copy of its own
global context and packs at once: no pack-B init runs, so the width search that
the GEMM repeats was never made.  The two sides agree exactly when the search
would have returned the default width.
-/

namespace AoclDlp.DecisionEngine.ConvertingReorder

open AoclDlp.Config.BlockSize
open AoclDlp.Config.LocalContext
open AoclDlp.DecisionEngine.KernelInit
open AoclDlp.DecisionEngine.PanelAgreement
open AoclDlp.DecisionEngine.ShapeModel
open AoclDlp.DecisionEngine.ThreadPartition

/-- `NR` of `dlp_packb_mxp_nr64_f32obf16`. -/
def dlpPackbMxpNr64F32obf16NR : Nat :=
  64

/-- The local context with which `aocl_reorder_f32obf16` starts to pack. -/
def convertingReorderCntx (processor : Processor)
    (supThres : DlpGemmSupThreshold) (metadata : Option DlpMetadata) :
    Except DlpClscErr DlpGemmCntx :=
  if processor.avx512bf16 then
    dlpGemmUpdCntxWithMetadata
      (dlpGemmGetGlobalCntxObj processor supThres .f32obf16) metadata
  else .error .notSupported

/-- The search input that the hints describe, under the table's tile. -/
def hintedInput (n k : Nat) (hints : DlpGemmHints) : GemmShapeModelInput :=
  makeModelInput 0 n k 6 64 ⟨false, false, false, false, false⟩ hints.mHint
    hints.ntHint 0 0 0 true

/-- The padded work of a tile under the split it would run with. -/
def tileCost (input : GemmShapeModelInput) (dims : KernelDims) : Nat :=
  input.costEval (input.resolveShape bf16AdjustWays dims)

/--
When the search keeps the default width: the machine has no search, the hints
describe a single row, or the panel is not bound by streaming and the default
tile is no dearer than the narrow one.
-/
def KeepsDefaultWidth (machine : Machine) (n k : Nat)
    (hints : DlpGemmHints) : Prop :=
  GemmBackend.isAnalyticalShapeModelArch machine.processor .bf16 = false ∨
    hints.mHint ≤ 1 ∨
    (isBStreamBound machine.topology (hintedInput n k hints) = false ∧
      tileCost (hintedInput n k hints) ⟨6, 64⟩ ≤
        tileCost (hintedInput n k hints) ⟨8, 48⟩)

/-! ## The width that the search returns -/

/-- The streaming rule and the costs read no other bit of the mask. -/
theorem isBStreamBound_of_free (topology : Topology) (n k : Nat)
    {mask : BlkszSetMask} (rows : mask.MR = false)
    (columns : mask.NR = false) (hints : DlpGemmHints) :
    isBStreamBound topology (makeModelInput 0 n k 6 64 mask hints.mHint
        hints.ntHint 0 0 0 true) =
      isBStreamBound topology (hintedInput n k hints) := by
  have free := GemmShapeModelInput.admissible_of_free
    (show (makeModelInput 0 n k 6 64 mask hints.mHint hints.ntHint 0 0 0
      true).frozen.MR = false from rows) columns streamingTile
  have default := GemmShapeModelInput.admissible_of_free
    (show (hintedInput n k hints).frozen.MR = false from rfl) rfl
    streamingTile
  unfold isBStreamBound
  rw [free, default]
  rfl

theorem canUse_of_free (processor : Processor) {n : Nat} (columns : 2 ≤ n)
    (k : Nat) {mask : BlkszSetMask} (free : mask.MR = false)
    {hints : DlpGemmHints} (threads : 0 < hints.ntHint) :
    GemmBackend.canUseAnalyticalShapeModel processor
        (makeModelInput 0 n k 6 64 mask hints.mHint hints.ntHint 0 0 0 true)
        .bf16 =
      (GemmBackend.isAnalyticalShapeModelArch processor .bf16 &&
        decide (1 < hints.mHint)) := by
  have wide : 1 < n := columns
  simp [GemmBackend.canUseAnalyticalShapeModel, makeModelInput,
    GemmShapeModelInput.isEligible,
    GemmShapeModelInput.isTilePinnedByCaller, free, threads, wide]

/-- The search keeps 64 columns exactly under `KeepsDefaultWidth`. -/
theorem reorderedPanelNR_eq_default_iff (machine : Machine) {n : Nat}
    (columns : 2 ≤ n) (k : Nat) {mask : BlkszSetMask}
    (freeRows : mask.MR = false) (freeColumns : mask.NR = false)
    {hints : DlpGemmHints} (threads : 0 < hints.ntHint) :
    GemmBackend.reorderedPanelNR machine .bf16 n k 6 64 mask hints = 64 ↔
      KeepsDefaultWidth machine n k hints := by
  unfold GemmBackend.reorderedPanelNR KeepsDefaultWidth
  dsimp only
  rw [canUse_of_free machine.processor columns k freeRows threads]
  cases GemmBackend.isAnalyticalShapeModelArch machine.processor .bf16 with
  | false => exact ⟨fun _ => Or.inl rfl, fun _ => rfl⟩
  | true =>
      by_cases several : 1 < hints.mHint
      · rw [decide_eq_true several, Bool.and_true, if_pos rfl]
        unfold GemmBackend.proposeShape
        dsimp only
        rw [isBStreamBound_of_free machine.topology n k freeRows freeColumns
          hints]
        cases isBStreamBound machine.topology (hintedInput n k hints) with
        | true =>
            have narrow : ¬ (32 : Nat) = 64 := by decide
            simp [several, GemmShapeModelInput.resolveShape,
              GemmShapeModelInput.deferSplit, streamingTile, narrow]
        | false =>
            rw [if_neg Bool.false_ne_true, GemmBackend.candidateTiles,
              GemmShapeModelInput.sweepCandidates_pair bf16AdjustWays
                (GemmShapeModelInput.admissible_of_free freeRows freeColumns
                  _)
                (GemmShapeModelInput.admissible_of_free freeRows freeColumns
                  _)]
            change (if tileCost (hintedInput n k hints) ⟨8, 48⟩ <
              tileCost (hintedInput n k hints) ⟨6, 64⟩ then 48 else 64) =
                64 ↔ _
            simp [several]
      · rw [decide_eq_false several]
        exact ⟨fun _ => Or.inr (Or.inl (not_lt.mp several)), fun _ => rfl⟩

/-! ## The two sides -/

section Sides

variable {engine : Engine} {packThres supThres : DlpGemmSupThreshold}
    {metadata : DlpMetadata} {hints : DlpGemmHints} {n k : Nat}

/-- Every map gives the converting reorder the packer's own width. -/
theorem f32obf16_NR (processor : Processor) :
    (dlpGemmCntxInitBlkszMap processor .f32obf16).NR =
      dlpPackbMxpNr64F32obf16NR := by
  unfold dlpGemmCntxInitBlkszMap withZen3Override
  split_ifs <;> rfl

theorem convertingReorder_NR {packed : DlpGemmCntx}
    (free : metadata.LeavesTile)
    (packs : convertingReorderCntx engine.machine.processor packThres
      (some metadata) = .ok packed) :
    packed.blksz.NR = dlpPackbMxpNr64F32obf16NR := by
  unfold convertingReorderCntx at packs
  split at packs
  · rw [(upd_keepsTile rfl rfl free packs).NR]
    exact f32obf16_NR engine.machine.processor
  · cases packs

/-- The width that the BF16 engine assigns to the panel. -/
theorem panelNR_eq_default_iff {merged : DlpGemmCntx} (columns : 2 ≤ n)
    (stated : metadata.gemmHints = some hints) (threads : 0 < hints.ntHint)
    (free : metadata.LeavesTile)
    (merges : dlpGemmUpdCntxWithMetadata (globalCntx engine .bf16 supThres)
      (some metadata) = .ok merged) :
    panelNR engine.machine .bf16 n k merged = dlpPackbMxpNr64F32obf16NR ↔
      KeepsDefaultWidth engine.machine n k hints := by
  have kept := upd_keepsTile rfl rfl free merges
  have table := bf16_blksz engine.machine.processor
  have rows : merged.blksz.MR = 6 :=
    kept.MR.trans (congrArg DlpGemmBlockSize.MR table)
  have width : merged.blksz.NR = 64 :=
    kept.NR.trans (congrArg DlpGemmBlockSize.NR table)
  unfold panelNR
  rw [rows, width, upd_hints stated merges]
  exact reorderedPanelNR_eq_default_iff engine.machine columns k kept.maskMR
    kept.maskNR threads

end Sides

/-- Hints for 48 rows on one thread. -/
def singleThreadHints : DlpMetadata :=
  ⟨none, none, some ⟨48, 1⟩⟩

/-- The call that the hints describe. -/
def hintedCall : GemmCall :=
  ⟨48, 96, 64, 64, 1, .unpacked, .reordered, ⟨1, -1, -1⟩, false⟩

end AoclDlp.DecisionEngine.ConvertingReorder
