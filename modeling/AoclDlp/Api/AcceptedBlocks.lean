import AoclDlp.Api.F32Gemm
import AoclDlp.DecisionEngine.PanelAgreement

/-!
# Accepted blockings are well formed

Five block sizes are merged from the metadata, rewritten by two kernel inits
and validated.  The kernel init snaps `MC` and `NC` onto the tile of the
kernel, the pack-B init after it finds the tile settled, and the validator
compares every stated size with the context.  So a call that is accepted runs
with positive block sizes, whole tiles in `MC` and `NC` and the caller's sizes,
whatever integers the caller stated.

The sizes are naturals here and signed 64-bit in the source.  Both agree where
no round-up leaves the type, which is where a size and the tile that it is
rounded to sum to less than `2 ^ 63` (`checkedRoundUp_eq`).
-/

namespace AoclDlp.Api.AcceptedBlocks

open AoclDlp.Api.F32Gemm
open AoclDlp.Config.BlockSize
open AoclDlp.Config.LocalContext
open AoclDlp.DecisionEngine.KernelInit
open AoclDlp.DecisionEngine.PanelAgreement (zen5Engine)
open AoclDlp.DecisionEngine.ShapeModel
open AoclDlp.Foundations.Rounding

/-- Positive block sizes with whole tiles in the cache blocks. -/
structure WellFormedBlocks (blksz : DlpGemmBlockSize) : Prop where
  positive : PositiveBlocks blksz
  rows : blksz.MR ∣ blksz.MC
  columns : blksz.NR ∣ blksz.NC

/-- The block sizes with every cache block snapped onto a tile. -/
def snapped (blksz : DlpGemmBlockSize) (dims : KernelDims) (kc : Nat) :
    DlpGemmBlockSize where
  MC := roundUp blksz.MC dims.mr
  NC := roundUp blksz.NC dims.nr
  KC := kc
  MR := dims.mr
  NR := dims.nr

theorem snapped_wellFormed {blksz : DlpGemmBlockSize} {dims : KernelDims}
    {kc : Nat} (positive : PositiveBlocks blksz) (rows : dims.mr ≠ 0)
    (columns : dims.nr ≠ 0) (depth : 0 < kc) :
    WellFormedBlocks (snapped blksz dims kc) where
  positive :=
    ⟨roundUp_pos (Nat.pos_of_ne_zero rows) positive.MC_pos,
      roundUp_pos (Nat.pos_of_ne_zero columns) positive.NC_pos, depth,
      Nat.pos_of_ne_zero rows, Nat.pos_of_ne_zero columns⟩
  rows := dvd_roundUp _ _
  columns := dvd_roundUp _ _

/-! ## What the validator keeps -/

/-- A size that the caller stated is the one in the context. -/
def Keeps (stated : Int) (current : Nat) : Prop :=
  0 < stated → (current : Int) = stated

/-- Every size that the metadata states is the one in the context. -/
structure KeepsStated (stated : DlpGemmBlocking) (blksz : DlpGemmBlockSize) :
    Prop where
  MC : Keeps stated.MC blksz.MC
  NC : Keeps stated.NC blksz.NC
  KC : Keeps stated.KC blksz.KC
  MR : Keeps stated.MR blksz.MR
  NR : Keeps stated.NR blksz.NR

/-- The block sizes that an optional metadata states. -/
def statedBlocks (metadata : Option DlpMetadata) : DlpGemmBlocking :=
  (metadata.map DlpMetadata.stated).getD ⟨0, 0, 0, 0, 0⟩

theorem keeps_of_keepsStated {stated : Int} {current : Nat}
    (kept : keepsStated stated current = true) : Keeps stated current := by
  intro positive
  rw [keepsStated, if_pos positive, beq_iff_eq] at kept
  exact kept

theorem keepsStated_unset (blksz : DlpGemmBlockSize) :
    KeepsStated ⟨0, 0, 0, 0, 0⟩ blksz := by
  constructor <;> exact fun positive => absurd positive (lt_irrefl 0)

theorem keepsStated_of_validated {settled : DlpGemmCntx}
    {metadata : Option DlpMetadata}
    (validates : dlpGemmValidateMetadataWithLcntx settled metadata =
      .ok ()) : KeepsStated (statedBlocks metadata) settled.blksz := by
  cases metadata with
  | none => exact keepsStated_unset settled.blksz
  | some metadata =>
      change KeepsStated (metadata.blockParams.getD _) settled.blksz
      cases stated : metadata.blockParams with
      | none => exact keepsStated_unset settled.blksz
      | some params =>
          have kept := validated_blockParams stated validates
          simp only [validateBlockParams, Bool.and_eq_true] at kept
          rcases kept with ⟨⟨⟨⟨⟨⟨MR, NR⟩, MC⟩, KC⟩, NC⟩, -⟩, -⟩
          exact ⟨keeps_of_keepsStated MC, keeps_of_keepsStated NC,
            keeps_of_keepsStated KC, keeps_of_keepsStated MR,
            keeps_of_keepsStated NR⟩

/-! ## The inits of the decision engine -/

section Inits

variable {engine : Engine} {backend : GemmBackend} {cntx : DlpGemmCntx}
variable {call : GemmCall} {info : KernelInfo} {threads : DlpGemmThreadInfo}

/-- A GEMM kernel keeps a positive `KC`. -/
theorem kernelInfo_kc_pos (rows : 2 ≤ call.m) (columns : 2 ≤ call.n)
    (depth : 0 < cntx.blksz.KC)
    (found : dlpGetGemmKernelInfoByDtype engine backend call (hintsOf cntx) =
      some (info, threads)) : 0 < info.kc := by
  have several : ¬ (call.m = 1 ∨ call.n = 1) := by omega
  have factor : 0 < kPackFactor backend := by
    cases backend <;> decide
  unfold dlpGetGemmKernelInfoByDtype at found
  dsimp only at found
  rw [if_neg several, if_neg several] at found
  split at found
  · split at found
    · rcases Option.map_eq_some_iff.mp found with ⟨rerouted, fold, same⟩
      cases same
      unfold F32Backend.gemmKernelInfo at fold
      split at fold
      · split at fold
        · cases fold
        · rcases Option.map_eq_some_iff.mp fold with ⟨_, -, rfl⟩
          exact depth
      · cases fold
    · unfold gemmKernelInfo at found
      split at found
      · cases found
      · cases found
        exact roundUp_pos factor depth
  · cases found

/-- A kernel init that yields a kernel snaps the context onto its tile. -/
theorem kernelHndl_wellFormed (rows : 2 ≤ call.m) (columns : 2 ≤ call.n)
    (positive : PositiveBlocks cntx.blksz)
    (yields : (dlpInitAndGetKernelHndl engine backend call cntx).hasKernel =
      true) :
    let settled := dlpInitAndGetKernelHndl engine backend call cntx
    WellFormedBlocks settled.blksz ∧ settled.blkszSetMask.MR = true ∧
      settled.blkszSetMask.NR = true := by
  intro settled
  change settled.hasKernel = true at yields
  have unfolded : settled =
      dlpInitAndGetKernelHndl engine backend call cntx := rfl
  unfold dlpInitAndGetKernelHndl at unfolded
  split at unfolded
  next =>
    rw [unfolded] at yields
    cases yields
  next info threads found =>
    split at unfolded
    · rw [unfolded] at yields
      cases yields
    next tile =>
      rcases not_or.mp tile with ⟨mr, nr⟩
      rw [unfolded]
      exact ⟨snapped_wellFormed positive mr nr
        (kernelInfo_kc_pos rows columns positive.KC_pos found), rfl, rfl⟩

/-- A pack-B init leaves a settled tile and its blocks as they are. -/
theorem packbHndl_blksz (n k csSrc : Nat)
    (wellFormed : WellFormedBlocks cntx.blksz)
    (rows : cntx.blkszSetMask.MR = true)
    (columns : cntx.blkszSetMask.NR = true) :
    (dlpInitAndGetPackbKernelHndl engine backend n k csSrc cntx).blksz =
      cntx.blksz := by
  have kept : panelNR engine.machine backend n k cntx = cntx.blksz.NR :=
    backend.reorderedPanelNR_of_settled engine.machine rows columns n k _ _ _
  have whole : roundUp cntx.blksz.NC cntx.blksz.NR = cntx.blksz.NC :=
    roundUp_of_dvd wellFormed.positive.NR_pos wellFormed.columns
  unfold dlpInitAndGetPackbKernelHndl packBPanelDim
  rw [kept]
  cases supportsPackB engine.machine.processor backend with
  | false => rfl
  | true =>
      change (ite _ _ _ : DlpGemmCntx).blksz = _
      rw [if_neg wellFormed.positive.NR_pos.ne']
      change ({ cntx.blksz with
        NC := roundUp cntx.blksz.NC cntx.blksz.NR } : DlpGemmBlockSize) = _
      rw [whole]

end Inits

/-! ## The pipelines -/

/-- Merging the metadata of a call leaves positive block sizes. -/
theorem mergedCall_positive {engine : Engine} {backend : GemmBackend}
    {supThres : DlpGemmSupThreshold} {call merged : GemmCall}
    {metadata : Option DlpMetadata} {lcntx : DlpGemmCntx}
    (merges : mergedCall engine backend supThres call metadata =
      .ok (lcntx, merged)) :
    PositiveBlocks lcntx.blksz ∧ merged.m = call.m ∧ merged.n = call.n := by
  have installed : PositiveBlocks
      ((globalCntx engine backend supThres).withThreads call.rntm).blksz :=
    blkszMap_positive engine.machine.processor (operationType backend)
  have f32 := blkszMap_positive engine.machine.processor .f32f32f32of32
  cases backend with
  | bf16 =>
      rcases bind_ok merges with ⟨updated, updates, rest⟩
      have positive : PositiveBlocks updated.blksz := by
        unfold updBf16Cntx at updates
        split at updates
        · exact upd_positive installed updates
        · cases updates
          exact installed
      split at rest
      · split at rest
        · cases rest
        · cases rest
          refine ⟨⟨positive.MC_pos, positive.NC_pos, f32.KC_pos, f32.MR_pos,
            f32.NR_pos⟩, ?_, ?_⟩ <;> split <;> rfl
      · cases rest
        exact ⟨positive, rfl, rfl⟩
  | u8s8 =>
      rcases bind_ok merges with ⟨updated, updates, rest⟩
      cases rest
      exact ⟨upd_positive installed updates, rfl, rfl⟩
  | s8 =>
      rcases bind_ok merges with ⟨updated, updates, rest⟩
      cases rest
      exact ⟨upd_positive installed updates, rfl, rfl⟩

/-- The inits and the validator after the merge of a BF16, U8S8 or S8 call. -/
theorem steps_wellFormed {engine : Engine} {backend : GemmBackend}
    {supThres : DlpGemmSupThreshold} {call merged : GemmCall}
    {metadata : Option DlpMetadata} {lcntx : DlpGemmCntx}
    (rows : 2 ≤ call.m) (columns : 2 ≤ call.n)
    (merges : mergedCall engine backend supThres call metadata =
      .ok (lcntx, merged))
    (yields : (dlpInitAndGetKernelHndl engine backend merged
      lcntx).hasKernel = true)
    (validates : dlpGemmValidateMetadataWithLcntx
      (dlpInitAndGetPackbKernelHndl engine backend merged.n merged.k
        merged.csB (dlpInitAndGetKernelHndl engine backend merged lcntx))
      metadata = .ok ()) :
    let settled := dlpInitAndGetPackbKernelHndl engine backend merged.n
      merged.k merged.csB
      (dlpInitAndGetKernelHndl engine backend merged lcntx)
    WellFormedBlocks settled.blksz ∧
      KeepsStated (statedBlocks metadata) settled.blksz := by
  rcases mergedCall_positive merges with ⟨positive, sameRows, sameColumns⟩
  rcases kernelHndl_wellFormed (sameRows ▸ rows) (sameColumns ▸ columns)
    positive yields with ⟨wellFormed, maskMR, maskNR⟩
  refine ⟨?_, keepsStated_of_validated validates⟩
  rw [packbHndl_blksz _ _ _ wellFormed maskMR maskNR]
  exact wellFormed

/-- A BF16, U8S8 or S8 call that reaches its driver. -/
theorem gemmCntx_wellFormed {engine : Engine} {backend : GemmBackend}
    {supThres : DlpGemmSupThreshold} {call : GemmCall}
    {metadata : Option DlpMetadata} {settled : DlpGemmCntx}
    (rows : 2 ≤ call.m) (columns : 2 ≤ call.n)
    (accepts : gemmCntx engine backend supThres call metadata =
      .ok settled) :
    WellFormedBlocks settled.blksz ∧
      KeepsStated (statedBlocks metadata) settled.blksz := by
  rcases bind_ok accepts with ⟨⟨lcntx, merged⟩, merges, accepts⟩
  rcases bind_ok accepts with ⟨_, -, accepts⟩
  dsimp only at accepts
  split at accepts
  next yields =>
    split at accepts
    · cases accepts
    · rcases bind_ok accepts with ⟨_, validates, done⟩
      cases done
      exact steps_wellFormed rows columns merges yields validates
  · cases accepts

section F32

variable {Scalar : Type} [BEq Scalar] [OfNat Scalar 0]
  {around : F32Surroundings} {metadata : Option DlpMetadata}
  {lcntx settled : DlpGemmCntx} {beta : Scalar} {ops : Operands} {k : Nat}
  {kernel : F32KernelInfo}

/-- The inits and the validator after the merge of an F32 call. -/
theorem f32Steps_wellFormed (rows : 2 ≤ ops.m) (columns : 2 ≤ ops.n)
    (merges : dlpGemmUpdCntxWithMetadata
      (dlpGemmGetGlobalCntxObj around.processor around.supThres
        .f32f32f32of32) metadata = .ok lcntx)
    (yields : initF32Kernel around (engineCall around ops k) beta lcntx =
      (settled, some kernel))
    (validates : dlpGemmValidateMetadataWithLcntx
      (initF32PackB around ops.csB settled) metadata = .ok ()) :
    WellFormedBlocks (initF32PackB around ops.csB settled).blksz ∧
      KeepsStated (statedBlocks metadata)
        (initF32PackB around ops.csB settled).blksz := by
  have positive := upd_positive (blkszMap_positive _ _) merges
  refine ⟨?_, keepsStated_of_validated validates⟩
  unfold initF32Kernel at yields
  split at yields
  · cases yields
  next key returns =>
    dsimp only at yields
    split at yields
    · cases yields
    next tile =>
      rcases not_or.mp tile with ⟨mr, nr⟩
      rw [Prod.mk.injEq] at yields
      rcases yields with ⟨rfl, held⟩
      have depth : 0 < key.info.kc := by
        rw [(nativeKernelInfo_gemm (show ops.m ≠ 1 by omega)
          (show ops.n ≠ 1 by omega) returns).1]
        split
        · exact Nat.one_pos
        · exact positive.KC_pos
      have wellFormed := snapped_wellFormed positive mr nr depth
      rw [initF32PackB_blksz around ops.csB wellFormed.positive.NR_pos
        wellFormed.columns]
      exact wellFormed

/-- An F32 call that reaches its frame. -/
theorem f32_wellFormed {args : F32Args Scalar} {hasPostOps : Bool}
    {run : F32Run Scalar} (rows : 2 ≤ args.gemm.m)
    (columns : 2 ≤ args.gemm.n)
    (accepts : aoclGemmF32f32f32of32 around args metadata hasPostOps =
      .ok run) :
    WellFormedBlocks run.lcntx.blksz ∧
      KeepsStated (statedBlocks metadata) run.lcntx.blksz := by
  have storedRows : 2 ≤ (storedOperands args.gemm).m := by
    change 2 ≤ args.gemm.m.toNat
    omega
  have storedColumns : 2 ≤ (storedOperands args.gemm).n := by
    change 2 ≤ args.gemm.n.toNat
    omega
  rcases bind_ok accepts with ⟨_, -, accepts⟩
  rcases bind_ok accepts with ⟨_, -, accepts⟩
  rcases bind_ok accepts with ⟨_, -, accepts⟩
  rcases bind_ok accepts with ⟨lcntx, merges, accepts⟩
  rcases bind_ok accepts with ⟨postOpsDisabled, -, settles⟩
  dsimp only at settles
  rw [if_neg (by omega)] at settles
  generalize induces : (_ || !hasPostOps) = inducesTranspose at settles
  have several : 2 ≤ (gemmOperands inducesTranspose args.gemm).m ∧
      2 ≤ (gemmOperands inducesTranspose args.gemm).n := by
    rcases gemmOperands_extents inducesTranspose args.gemm with
      ⟨m, n⟩ | ⟨m, n⟩ <;> omega
  unfold settleF32 at settles
  split at settles
  · cases settles
  next found kernel yields =>
    rcases bind_ok settles with ⟨_, -, settles⟩
    rcases bind_ok settles with ⟨_, validates, done⟩
    cases done
    exact f32Steps_wellFormed several.1 several.2 merges yields validates

end F32

/-- A metadata that states `NC`, a negative `MC` and nothing else. -/
def statedNC : DlpMetadata :=
  ⟨some ⟨-5, 2048, 0, 0, 0⟩, none, none⟩

/-- A 100 by 1000 product over a packed B. -/
def packedCall : GemmCall :=
  ⟨100, 1000, 64, 64, 1, .unpacked, .pack, ⟨4, -1, -1⟩, false⟩

/-- A Zen5 machine whose F32 generators emit every kernel. -/
def f32Around : F32Surroundings where
  processor := zen5Engine.machine.processor
  avx2fma3 := true
  supThres := ⟨0, 0, 0⟩
  backend := zen5Engine.f32Backend
  jitKernel := fun _ _ => true
  jitPackBKernel := fun _ _ => true
  rntm := ⟨4, -1, -1⟩
  postOps := .ok true

end AoclDlp.Api.AcceptedBlocks
