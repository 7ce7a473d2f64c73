import AoclDlp.DecisionEngine.KernelInit

/-!
# Reorder and GEMM agree on the panel

A native reorder and every later GEMM over its buffer settle on the same `NR`,
`NC` and `KC`.  The two sides merge the same metadata into copies of the same
global context, so they run the width search over the same input; the inits
then change the block sizes only through that width, and the validator rejects
a call whose `KC` would differ from a stated one.
-/

namespace AoclDlp.DecisionEngine.PanelAgreement

open AoclDlp.Config.BlockSize
open AoclDlp.Config.LocalContext
open AoclDlp.DecisionEngine.KernelInit
open AoclDlp.DecisionEngine.ShapeModel
open AoclDlp.Foundations.Rounding

/-! ## The table entries -/

/-- Every map installs the same BF16 entry; its `KC` is the one that the GEMV
fold hardcodes. -/
theorem bf16_blksz (processor : Processor) :
    dlpGemmCntxInitBlkszMap processor .bf16bf16f32of32 =
      ⟨144, 1024, 4096, 6, 64⟩ := by
  unfold dlpGemmCntxInitBlkszMap withZen3Override
  split_ifs <;> rfl

theorem kPackFactor_dvd_KC (processor : Processor) (backend : GemmBackend) :
    kPackFactor backend ∣
      (dlpGemmCntxInitBlkszMap processor (operationType backend)).KC := by
  unfold dlpGemmCntxInitBlkszMap withZen3Override
  cases backend <;> split_ifs <;> decide

/-! ## What the inits settle -/

section Inits

variable {engine : Engine} {backend : GemmBackend} {cntx : DlpGemmCntx}

/-- A pack-B init on a machine with a pack-B kernel. -/
theorem packb_blksz (n k csSrc : Nat)
    (supported : supportsPackB engine.machine.processor backend = true)
    (positive : panelNR engine.machine backend n k cntx ≠ 0) :
    (dlpInitAndGetPackbKernelHndl engine backend n k csSrc cntx).blksz =
      { cntx.blksz with
        NC := roundUp cntx.blksz.NC
          (panelNR engine.machine backend n k cntx)
        NR := panelNR engine.machine backend n k cntx } := by
  unfold dlpInitAndGetPackbKernelHndl packBPanelDim
  rw [if_pos supported]
  exact congrArg DlpGemmCntx.blksz (if_neg positive)

/-- A pack-B init that yields a kernel had a machine and a width for it. -/
theorem packb_of_kernel {n k csSrc : Nat}
    (yields : (dlpInitAndGetPackbKernelHndl engine backend n k csSrc
      cntx).hasPackBKernel = true) :
    supportsPackB engine.machine.processor backend = true ∧
      panelNR engine.machine backend n k cntx ≠ 0 := by
  unfold dlpInitAndGetPackbKernelHndl packBPanelDim at yields
  cases supported : supportsPackB engine.machine.processor backend with
  | false =>
      rw [supported] at yields
      cases yields
  | true =>
      refine ⟨rfl, fun zero => ?_⟩
      rw [supported, if_pos rfl] at yields
      dsimp only at yields
      rw [if_pos zero] at yields
      cases yields

/-- A pack-B init after a kernel init keeps the width. -/
theorem packb_after_kernel (n k csSrc : Nat)
    (supported : supportsPackB engine.machine.processor backend = true)
    (rows : cntx.blkszSetMask.MR = true)
    (columns : cntx.blkszSetMask.NR = true) (positive : cntx.blksz.NR ≠ 0) :
    (dlpInitAndGetPackbKernelHndl engine backend n k csSrc cntx).blksz =
      { cntx.blksz with NC := roundUp cntx.blksz.NC cntx.blksz.NR } := by
  have kept : panelNR engine.machine backend n k cntx = cntx.blksz.NR :=
    backend.reorderedPanelNR_of_settled engine.machine rows columns n k _ _ _
  rw [packb_blksz n k csSrc supported (kept.trans_ne positive), kept]

/-- What a kernel init that yields a kernel leaves in the context. -/
structure Settles (cntx settled : DlpGemmCntx) (info : KernelInfo) :
    Prop where
  nr_ne_zero : info.dims.nr ≠ 0
  NC : settled.blksz.NC = roundUp cntx.blksz.NC info.dims.nr
  KC : settled.blksz.KC = info.kc
  NR : settled.blksz.NR = info.dims.nr
  maskMR : settled.blkszSetMask.MR = true
  maskNR : settled.blkszSetMask.NR = true

theorem kernel_settles {call : GemmCall}
    (yields : (dlpInitAndGetKernelHndl engine backend call cntx).hasKernel =
      true) :
    ∃ info threads,
      dlpGetGemmKernelInfoByDtype engine backend call (hintsOf cntx) =
          some (info, threads) ∧
        Settles cntx (dlpInitAndGetKernelHndl engine backend call cntx)
          info := by
  unfold dlpInitAndGetKernelHndl at yields ⊢
  cases found : dlpGetGemmKernelInfoByDtype engine backend call
      (hintsOf cntx) with
  | none =>
      rw [found] at yields
      cases yields
  | some choice =>
      rcases choice with ⟨info, threads⟩
      rw [found] at yields
      dsimp only at yields ⊢
      by_cases empty : info.dims.mr = 0 ∨ info.dims.nr = 0
      · rw [if_pos empty] at yields
        cases yields
      · refine ⟨info, threads, rfl, ?_⟩
        rw [if_neg empty]
        exact ⟨fun zero => empty (Or.inr zero), rfl, rfl, rfl, rfl, rfl⟩

/-- The `KC` of a kernel over a reordered panel. -/
def KernelKC (backend : GemmBackend) (kcHint kc : Nat) : Prop :=
  kc = roundUp kcHint (kPackFactor backend) ∨ (backend = .bf16 ∧ kc = 4096)

/-- Every native kernel over a reordered panel walks it at the panel's
width, GEMV and skinny kernels included. -/
theorem kernelInfo_over_reordered {call : GemmCall} {info : KernelInfo}
    {threads : DlpGemmThreadInfo}
    (supported : supportsPackB engine.machine.processor backend = true)
    (columns : 2 ≤ call.n) (tag : call.mtagB = .reordered)
    (found : dlpGetGemmKernelInfoByDtype engine backend call (hintsOf cntx) =
      some (info, threads)) :
    info.dims.nr = panelNR engine.machine backend call.n call.k cntx ∧
      KernelKC backend cntx.blksz.KC info.kc := by
  have wide : ¬ call.n = 1 := by omega
  have native : ¬ (backend = .bf16 ∧
      engine.machine.processor.isAvx512Bf16Configured = false) := by
    rintro ⟨rfl, absent⟩
    rw [supportsPackB, absent] at supported
    cases supported
  unfold dlpGetGemmKernelInfoByDtype at found
  dsimp only at found
  rw [if_neg native] at found
  split at found
  next =>
    split at found
    next =>
      cases found
      unfold gemvKernelInfo
      rw [if_neg wide, if_pos tag]
      refine ⟨rfl, ?_⟩
      cases backend with
      | bf16 => exact Or.inr ⟨rfl, show roundUp 4096 2 = 4096 by decide⟩
      | u8s8 => exact Or.inl rfl
      | s8 => exact Or.inl rfl
    next =>
      unfold gemmKernelInfo at found
      split at found
      next => cases found
      next =>
        cases found
        refine ⟨?_, Or.inl rfl⟩
        have reordered : decide (call.mtagB = .reordered) = true :=
          decide_eq_true tag
        unfold gemmModelInput
        rw [reordered]
        exact backend.resolveGemmShape_nr engine.machine _ _ _ _ _ _ _ _ _ _
  next => cases found

end Inits

/-! ## The two entry sequences -/

section Entries

variable {engine : Engine} {backend : GemmBackend}
    {supThres : DlpGemmSupThreshold} {metadata : Option DlpMetadata}
    {call : GemmCall}

/-- On a machine with a pack-B kernel a GEMM call merges as a reorder does. -/
theorem mergedCall_native
    (supported : supportsPackB engine.machine.processor backend = true) :
    mergedCall engine backend supThres call metadata =
      (dlpGemmUpdCntxWithMetadata (globalCntx engine backend supThres)
        metadata).map fun merged => (merged.withThreads call.rntm, call) := by
  have merged := upd_withThreads (globalCntx engine backend supThres)
    call.rntm metadata
  unfold mergedCall
  cases backend with
  | bf16 =>
      have configured :
          engine.machine.processor.isAvx512Bf16Configured = true := supported
      have stays : engine.machine.processor.reroutesBf16 = false := by
        by_contra reroutes
        rw [Processor.not_configured_of_reroutes
          (Bool.eq_true_of_not_eq_false reroutes)] at configured
        cases configured
      have detected : engine.machine.processor.avx512bf16 = true :=
        (Bool.and_eq_true_iff.mp configured).2
      dsimp only [updBf16Cntx]
      rw [if_pos detected, merged, stays]
      cases dlpGemmUpdCntxWithMetadata
        (globalCntx engine .bf16 supThres) metadata <;> rfl
  | u8s8 =>
      dsimp only
      rw [merged]
      cases dlpGemmUpdCntxWithMetadata
        (globalCntx engine .u8s8 supThres) metadata <;> rfl
  | s8 =>
      dsimp only
      rw [merged]
      cases dlpGemmUpdCntxWithMetadata
        (globalCntx engine .s8 supThres) metadata <;> rfl

/-- The steps of a native reorder that succeeds. -/
structure Packs (engine : Engine) (backend : GemmBackend)
    (supThres : DlpGemmSupThreshold) (n k : Nat)
    (metadata : Option DlpMetadata) (merged reordered : DlpGemmCntx) :
    Prop where
  merges : dlpGemmUpdCntxWithMetadata (globalCntx engine backend supThres)
    metadata = .ok merged
  supported : supportsPackB engine.machine.processor backend = true
  width_ne_zero : panelNR engine.machine backend n k merged ≠ 0
  blksz : reordered.blksz =
    { merged.blksz with
      NC := roundUp merged.blksz.NC
        (panelNR engine.machine backend n k merged)
      NR := panelNR engine.machine backend n k merged }

theorem packs_of_ok {n k csB : Nat} {reordered : DlpGemmCntx}
    (succeeds : nativeReorderCntx engine backend supThres n k csB metadata =
      .ok reordered) :
    ∃ merged, Packs engine backend supThres n k metadata merged
      reordered := by
  rcases bind_ok succeeds with ⟨merged, merges, succeeds⟩
  rcases bind_ok succeeds with ⟨_, _, succeeds⟩
  dsimp only at succeeds
  split at succeeds
  next yields =>
    rcases bind_ok succeeds with ⟨_, _, done⟩
    cases done
    rcases packb_of_kernel yields with ⟨supported, positive⟩
    exact ⟨merged, merges, supported, positive,
      packb_blksz n k csB supported positive⟩
  next => cases succeeds

/-- The steps of a GEMM call over a reordered panel that reaches its driver
on a machine with a pack-B kernel. -/
structure Runs (engine : Engine) (backend : GemmBackend) (call : GemmCall)
    (metadata : Option DlpMetadata) (merged running : DlpGemmCntx) :
    Prop where
  NR : running.blksz.NR = panelNR engine.machine backend call.n call.k merged
  NC : running.blksz.NC = roundUp merged.blksz.NC
    (panelNR engine.machine backend call.n call.k merged)
  KC : KernelKC backend merged.blksz.KC running.blksz.KC
  validates : dlpGemmValidateMetadataWithLcntx running metadata = .ok ()

theorem runs_of_ok {merged running : DlpGemmCntx}
    (supported : supportsPackB engine.machine.processor backend = true)
    (columns : 2 ≤ call.n) (tag : call.mtagB = .reordered)
    (merges : dlpGemmUpdCntxWithMetadata (globalCntx engine backend supThres)
      metadata = .ok merged)
    (succeeds : gemmCntx engine backend supThres call metadata =
      .ok running) :
    Runs engine backend call metadata merged running := by
  unfold gemmCntx at succeeds
  rw [mergedCall_native supported, merges] at succeeds
  rcases bind_ok succeeds with ⟨_, same, succeeds⟩
  cases same
  rcases bind_ok succeeds with ⟨_, _, succeeds⟩
  dsimp only at succeeds
  split at succeeds
  next yields =>
    split at succeeds
    next => cases succeeds
    next =>
      rcases bind_ok succeeds with ⟨_, validates, done⟩
      cases done
      rcases kernel_settles yields with ⟨info, threads, found, settles⟩
      rcases kernelInfo_over_reordered supported columns tag found with
        ⟨width, kc⟩
      have positive := settles.nr_ne_zero
      have blksz := packb_after_kernel call.n call.k call.csB supported
        settles.maskMR settles.maskNR (settles.NR.trans_ne positive)
      have snapped : roundUp (roundUp merged.blksz.NC info.dims.nr)
          info.dims.nr = roundUp merged.blksz.NC info.dims.nr :=
        roundUp_of_dvd (Nat.pos_of_ne_zero positive) (dvd_roundUp _ _)
      refine ⟨?_, ?_, ?_, validates⟩
      · rw [blksz]
        exact settles.NR.trans width
      · rw [blksz]
        change roundUp _ _ = _
        rw [settles.NC, settles.NR]
        exact snapped.trans (congrArg _ width)
      · rw [blksz, settles.KC]
        exact kc
  next => cases succeeds

/-- A `KC` that a kernel and the validator accept is the merged one. -/
theorem kernelKC_eq {merged running : DlpGemmCntx}
    (merges : dlpGemmUpdCntxWithMetadata (globalCntx engine backend supThres)
      metadata = .ok merged)
    (runs : Runs engine backend call metadata merged running) :
    running.blksz.KC = merged.blksz.KC := by
  rcases upd_KC merges with fromTable | stated
  · have divides : kPackFactor backend ∣ merged.blksz.KC := by
      rw [fromTable]
      exact kPackFactor_dvd_KC engine.machine.processor backend
    have positive : 0 < kPackFactor backend := by
      cases backend <;> decide
    rcases runs.KC with rounded | ⟨rfl, fixed⟩
    · rw [rounded, roundUp_of_dvd positive divides]
    · rw [fixed, fromTable]
      exact (congrArg DlpGemmBlockSize.KC
        (bf16_blksz engine.machine.processor)).symm
  · exact stated running runs.validates

/--
A GEMM over a natively reordered buffer runs with the block sizes that the
reorder packed under, for every number of rows, every runtime and every
metadata that both sides accept.
-/
theorem panel_geometry_agrees {n k csB : Nat} (columns : 2 ≤ n)
    {reordered : DlpGemmCntx}
    (packs : nativeReorderCntx engine backend supThres n k csB metadata =
      .ok reordered) :
    ∀ call : GemmCall, call.n = n → call.k = k →
      call.mtagB = .reordered → ∀ running : DlpGemmCntx,
        gemmCntx engine backend supThres call metadata = .ok running →
          running.blksz.NR = reordered.blksz.NR ∧
            running.blksz.NC = reordered.blksz.NC ∧
            running.blksz.KC = reordered.blksz.KC := by
  rcases packs_of_ok packs with ⟨merged, packed⟩
  rintro call rfl rfl tag running succeeds
  have runs := runs_of_ok packed.supported columns tag packed.merges succeeds
  rw [packed.blksz]
  exact ⟨runs.NR, runs.NC, kernelKC_eq packed.merges runs⟩

end Entries

/-- A Zen5 machine whose generators emit every kernel. -/
def zen5Engine : Engine where
  machine :=
    { processor := ⟨false, true, true, true, true, .zen5, false⟩
      topology := ⟨8, 33554432⟩ }
  f32Backend := ⟨true, false, .none, true⟩
  jitKernel := fun _ _ => true
  jitPackBKernel := fun _ _ => true

/-- Hints for 48 rows on two threads. -/
def hintedMetadata : DlpMetadata :=
  ⟨none, none, some ⟨48, 2⟩⟩

/-- A one-row call on two pinned ways over a 64 by 96 reordered panel. -/
def gemvCall : GemmCall :=
  ⟨1, 96, 64, 64, 1, .unpacked, .reordered, ⟨-1, 2, 1⟩, false⟩

/-- The search picks 48 columns, and the GEMV kernel follows it. -/
theorem panel_geometry_agrees_gemv :
    ∃ reordered running,
      nativeReorderCntx zen5Engine .u8s8 ⟨0, 0, 0⟩ 96 64 1
          (some hintedMetadata) = .ok reordered ∧
        gemmCntx zen5Engine .u8s8 ⟨0, 0, 0⟩ gemvCall (some hintedMetadata) =
          .ok running ∧
        reordered.blksz.NR = 48 ∧
        running.blksz.NR = reordered.blksz.NR ∧
        running.blksz.NC = reordered.blksz.NC ∧
        running.blksz.KC = reordered.blksz.KC := by
  refine ⟨_, _, rfl, rfl, by decide, ?_⟩
  exact @panel_geometry_agrees zen5Engine .u8s8 ⟨0, 0, 0⟩
    (some hintedMetadata) 96 64 1 (by decide) _ rfl gemvCall rfl rfl rfl _
    rfl

end AoclDlp.DecisionEngine.PanelAgreement
