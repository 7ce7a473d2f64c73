import AoclDlp.DecisionEngine.PanelAgreement

/-!
# Panels that a native reorder accepts

A reorder and every later GEMM over its panel validate the same stated block
sizes, each against the context that its own inits left.  An unhinted reorder
that its entry accepts fixes what those inits start from; a call over the
panel is refused for its block sizes exactly when its own kernel changes a
stated one.
-/

namespace AoclDlp.DecisionEngine.UnhintedPanel

open AoclDlp.Config.BlockSize
open AoclDlp.Config.LocalContext
open AoclDlp.DecisionEngine.KernelInit
open AoclDlp.DecisionEngine.PanelAgreement
open AoclDlp.DecisionEngine.ShapeModel
open AoclDlp.Foundations.Rounding

/-! ## The native reorders -/

/-- `dlp_reorder_ref_blocks_legal`. -/
def dlpReorderRefBlocksLegal (NR minNR KC kFactor : Nat) : Bool :=
  decide (0 < NR) && decide (0 < KC) && decide (0 < minNR) &&
    decide (0 < kFactor) && decide (NR % minNR = 0) &&
    decide (KC % kFactor = 0)

/-- The checks of a native reorder entry; the int8 ones also refuse blocks
that their layout cannot hold. -/
def nativeReorder (engine : Engine) (backend : GemmBackend)
    (supThres : DlpGemmSupThreshold) (n k csB : Nat)
    (metadata : Option DlpMetadata) : Except DlpClscErr DlpGemmCntx := do
  let lcntx ← nativeReorderCntx engine backend supThres n k csB metadata
  match backend with
  | .bf16 => .ok lcntx
  | .u8s8 | .s8 =>
      if dlpReorderRefBlocksLegal lcntx.blksz.NR 16 lcntx.blksz.KC 4 then
        .ok lcntx
      else .error .invalidBlockParams

/-- The metadata describes no later GEMM: a hint is zero. -/
def Unhinted (metadata : DlpMetadata) : Prop :=
  metadata.statedHints.mHint = 0 ∨ metadata.statedHints.ntHint = 0

/-! ## Kernels over an unhinted panel -/

section Kernels

variable {engine : Engine} {backend : GemmBackend} {cntx : DlpGemmCntx}

/-- The context describes no GEMM to search a tile for. -/
def Undescribed (cntx : DlpGemmCntx) : Prop :=
  cntx.gemmKernelHints.mHint = 0 ∨ cntx.gemmKernelHints.ntHint = 0

theorem canUse_undescribed (processor : Processor) (backend : GemmBackend)
    {input : GemmShapeModelInput}
    (absent : input.m = 0 ∨ input.numThreads = 0)
    (unsplit : input.icWays = 0) :
    backend.canUseAnalyticalShapeModel processor input = false := by
  have ineligible : input.isEligible = false := by
    unfold GemmShapeModelInput.isEligible
    rcases absent with rows | threads
    · simp [rows]
    · simp [threads, unsplit]
  cases backend <;>
    simp [GemmBackend.canUseAnalyticalShapeModel, ineligible]

/-- An undescribed panel has the width of the context. -/
theorem panelNR_undescribed (absent : Undescribed cntx)
    (machine : Machine) (backend : GemmBackend) (n k : Nat) :
    panelNR machine backend n k cntx = cntx.blksz.NR := by
  have unused : backend.canUseAnalyticalShapeModel machine.processor
      (makeModelInput 0 n k cntx.blksz.MR cntx.blksz.NR cntx.blkszSetMask
        cntx.gemmKernelHints.mHint cntx.gemmKernelHints.ntHint 0 0 0 true) =
      false :=
    canUse_undescribed machine.processor backend absent rfl
  unfold panelNR GemmBackend.reorderedPanelNR
  rw [if_neg (by rw [unused]; exact Bool.false_ne_true)]
  rfl

/-- The height of a kernel for several rows. -/
def gemmMr (processor : Processor) (backend : GemmBackend)
    (call : GemmCall) (cntx : DlpGemmCntx) : Nat :=
  match backend with
  | .bf16 =>
      skinnyMr processor call cntx.blkszSetMask 2
        (decide (call.n ≤ 16) && decide (0 < call.m)) cntx.blksz.MR
  | .u8s8 | .s8 => cntx.blksz.MR

/-- The depth from which a one-row kernel starts. -/
def gemvKc (backend : GemmBackend) (kcHint : Nat) : Nat :=
  match backend with
  | .bf16 => 4096
  | .u8s8 | .s8 => kcHint

/-- Over an undescribed panel a kernel for several rows has the tile of the
context, up to the skinny rows. -/
theorem gemmKernelInfo_undescribed {call : GemmCall}
    (tag : call.mtagB = .reordered) (absent : Undescribed cntx) :
    gemmKernelInfo engine.machine backend call (hintsOf cntx) =
      if cntx.blksz.MR ≤ 1 ∨ cntx.blksz.NR ≤ 1 then none
      else
        some (⟨⟨gemmMr engine.machine.processor backend call cntx,
            cntx.blksz.NR⟩,
          roundUp cntx.blksz.KC (kPackFactor backend)⟩,
          cntx.threadInfo) := by
  have reordered : decide (call.mtagB = .reordered) = true :=
    decide_eq_true tag
  have unused : backend.canUseAnalyticalShapeModel engine.machine.processor
      (gemmModelInput call (hintsOf cntx)) = false := by
    unfold gemmModelInput
    rw [reordered]
    exact canUse_undescribed engine.machine.processor backend absent rfl
  have baseline : backend.resolveGemmShape engine.machine
      (gemmModelInput call (hintsOf cntx)) =
      (gemmModelInput call (hintsOf cntx)).baselineShape := by
    unfold GemmBackend.resolveGemmShape
    rw [unused]
    rfl
  have mr : (gemmModelInput call (hintsOf cntx)).baselineShape.mr =
      cntx.blksz.MR := by
    unfold gemmModelInput
    rw [reordered]
    rfl
  have nr : (gemmModelInput call (hintsOf cntx)).baselineShape.nr =
      cntx.blksz.NR := by
    unfold gemmModelInput
    rw [reordered]
    rfl
  unfold gemmKernelInfo
  dsimp only
  rw [baseline, unused, mr, nr]
  cases backend <;> rfl

theorem kernelInfo_undescribed {call : GemmCall}
    (supported : supportsPackB engine.machine.processor backend = true)
    (columns : 2 ≤ call.n) (tag : call.mtagB = .reordered)
    (absent : Undescribed cntx) :
    dlpGetGemmKernelInfoByDtype engine backend call (hintsOf cntx) =
      if call.m = 1 then
        some (⟨⟨1, cntx.blksz.NR⟩,
          roundUp (gemvKc backend cntx.blksz.KC) (kPackFactor backend)⟩,
          cntx.threadInfo)
      else if cntx.blksz.MR ≤ 1 ∨ cntx.blksz.NR ≤ 1 then none
      else
        some (⟨⟨gemmMr engine.machine.processor backend call cntx,
            cntx.blksz.NR⟩,
          roundUp cntx.blksz.KC (kPackFactor backend)⟩,
          cntx.threadInfo) := by
  have wide : ¬ call.n = 1 := by omega
  have able : canGenerateKernelInfo engine.machine.processor backend =
      true := by
    cases backend with
    | bf16 => rfl
    | u8s8 => exact supported
    | s8 => exact supported
  have native : ¬ (backend = .bf16 ∧
      engine.machine.processor.isAvx512Bf16Configured = false) := by
    rintro ⟨rfl, lacks⟩
    rw [supportsPackB, lacks] at supported
    cases supported
  have width := panelNR_undescribed absent engine.machine backend call.n
    call.k
  unfold dlpGetGemmKernelInfoByDtype
  dsimp only
  rw [if_pos able, if_neg native]
  by_cases single : call.m = 1
  · rw [if_pos (Or.inl single), if_pos single]
    unfold gemvKernelInfo
    rw [if_neg wide, if_pos tag]
    change some ((⟨⟨1, panelNR engine.machine backend call.n call.k cntx⟩,
      _⟩ : KernelInfo), cntx.threadInfo) = _
    rw [width]
    cases backend <;> rfl
  · rw [if_neg (not_or.mpr ⟨single, wide⟩), if_neg single]
    exact gemmKernelInfo_undescribed tag absent

/-- Over a packed A the rows of a skinny kernel are those of the call. -/
theorem skinnyMr_packed (processor : Processor) {call : GemmCall}
    {mask : BlkszSetMask} (elemBytes mr : Nat) (free : mask.MR = false)
    (packed : call.mtagA = .pack) (few : call.m ≤ 16) :
    skinnyMr processor call mask elemBytes true mr = call.m := by
  have tag : ¬ call.mtagA = .unpacked := by
    rw [packed]
    exact MemoryTag.noConfusion
  unfold skinnyMr
  rw [free]
  simp only [Bool.not_false, Bool.and_self, if_true]
  rw [if_neg (fun both => tag both.1)]
  omega

end Kernels

/-! ## The validation of a call -/

section Calls

variable {engine : Engine} {backend : GemmBackend}
  {supThres : DlpGemmSupThreshold} {metadata : DlpMetadata}
  {merged : DlpGemmCntx} {call : GemmCall} {info : KernelInfo}
  {threads : DlpGemmThreadInfo}

/-- The block sizes that the inits of a call leave. -/
def settledBlksz (cntx : DlpGemmCntx) (info : KernelInfo) :
    DlpGemmBlockSize where
  MC := roundUp cntx.blksz.MC info.dims.mr
  NC := roundUp cntx.blksz.NC info.dims.nr
  KC := info.kc
  MR := info.dims.mr
  NR := info.dims.nr

/-- The context that the inits of a call leave. -/
structure Inits (engine : Engine) (merged : DlpGemmCntx) (call : GemmCall)
    (info : KernelInfo) (settled : DlpGemmCntx) : Prop where
  blksz : settled.blksz = settledBlksz merged info
  supThres : settled.supThres = merged.supThres
  packB : settled.hasPackBKernel =
    engine.jitPackBKernel info.dims.nr (decide (call.csB ≠ 1))

theorem inits_of_found
    (supported : supportsPackB engine.machine.processor backend = true)
    (found : dlpGetGemmKernelInfoByDtype engine backend call
      (hintsOf merged) = some (info, threads))
    (high : info.dims.mr ≠ 0) (wide : info.dims.nr ≠ 0) :
    (dlpInitAndGetKernelHndl engine backend call merged).hasKernel =
        engine.jitKernel call info ∧
      Inits engine merged call info
        (dlpInitAndGetPackbKernelHndl engine backend call.n call.k call.csB
          (dlpInitAndGetKernelHndl engine backend call merged)) := by
  have sized : ¬ (info.dims.mr = 0 ∨ info.dims.nr = 0) :=
    not_or.mpr ⟨high, wide⟩
  have kernel : dlpInitAndGetKernelHndl engine backend call merged =
      { merged with
        threadInfo := threads
        hasKernel := engine.jitKernel call info
        blksz := settledBlksz merged info
        blkszSetMask :=
          { merged.blkszSetMask with MR := true, NR := true } } := by
    unfold dlpInitAndGetKernelHndl
    rw [found]
    exact if_neg sized
  rw [kernel]
  refine ⟨rfl, ?_⟩
  have width (cntx : DlpGemmCntx) (rows : cntx.blkszSetMask.MR = true)
      (columns : cntx.blkszSetMask.NR = true) :
      panelNR engine.machine backend call.n call.k cntx = cntx.blksz.NR :=
    backend.reorderedPanelNR_of_settled engine.machine rows columns
      call.n call.k _ _ _
  unfold dlpInitAndGetPackbKernelHndl packBPanelDim
  rw [if_pos supported, width _ rfl rfl]
  dsimp only [settledBlksz]
  rw [if_neg wide]
  have snapped : roundUp (roundUp merged.blksz.NC info.dims.nr)
      info.dims.nr = roundUp merged.blksz.NC info.dims.nr :=
    roundUp_of_dvd (Nat.pos_of_ne_zero wide) (dvd_roundUp _ _)
  refine ⟨?_, rfl, rfl⟩
  dsimp only
  rw [snapped]
  rfl

/-- The stated block sizes survive the inits of a call. -/
def Kept (metadata : DlpMetadata) (blksz : DlpGemmBlockSize) : Prop :=
  ∀ params, metadata.blockParams = some params →
    validateBlockParams params blksz = true

theorem validate_iff {cntx : DlpGemmCntx}
    (thresholds : metadata.supThresholds.all
      (validateSupThresholds · cntx.supThres) = true) :
    dlpGemmValidateMetadataWithLcntx cntx (some metadata) = .ok () ↔
      Kept metadata cntx.blksz := by
  unfold dlpGemmValidateMetadataWithLcntx Kept
  dsimp only
  rw [thresholds, Bool.and_true]
  cases metadata.blockParams with
  | none => exact ⟨fun _ => nofun, fun _ => rfl⟩
  | some params =>
      rw [Option.all_some]
      cases keeps : validateBlockParams params cntx.blksz with
      | true => exact ⟨by rintro - _ ⟨⟩; exact keeps, fun _ => rfl⟩
      | false =>
          refine ⟨nofun, fun all => ?_⟩
          exact absurd (keeps.symm.trans (all params rfl))
            Bool.false_ne_true

theorem validate_error {cntx : DlpGemmCntx} {metadata : Option DlpMetadata}
    {code : DlpClscErr}
    (refused : dlpGemmValidateMetadataWithLcntx cntx metadata =
      .error code) : code = .invalidBlockParams := by
  unfold dlpGemmValidateMetadataWithLcntx at refused
  split at refused
  · cases refused
  · split at refused
    · cases refused
    · cases refused
      rfl

/-- Over an undescribed panel the hints bind no call. -/
theorem admitted_undescribed
    (hints : dlpGemmValidateHints merged = .ok ())
    (absent : Undescribed merged) (call : GemmCall) :
    dlpGemmValidateHintsWithCall (merged.withThreads call.rntm) call.mtagB
      call.rntm.numThreads call.rntm.icWays call.rntm.jcWays = .ok () := by
  unfold dlpGemmValidateHintsWithCall
  have same : dlpGemmValidateHints (merged.withThreads call.rntm) =
      .ok () := hints
  have unset : (merged.withThreads call.rntm).gemmKernelHints.mHint = 0 ∨
      (merged.withThreads call.rntm).gemmKernelHints.ntHint = 0 := absent
  rw [same]
  dsimp only [bind, Except.bind]
  rw [if_pos unset]
  exact ite_self _

/-- A call over an undescribed panel runs the inits and the validator. -/
theorem gemmCntx_undescribed
    (supported : supportsPackB engine.machine.processor backend = true)
    (merges : dlpGemmUpdCntxWithMetadata (globalCntx engine backend supThres)
      (some metadata) = .ok merged)
    (hints : dlpGemmValidateHints merged = .ok ())
    (absent : Undescribed merged) :
    gemmCntx engine backend supThres call (some metadata) =
      (let settled := dlpInitAndGetKernelHndl engine backend call
        (merged.withThreads call.rntm)
      if settled.hasKernel then
        let packed := dlpInitAndGetPackbKernelHndl engine backend call.n
          call.k call.csB settled
        if decide (1 < packed.blksz.NR) && !packed.hasPackBKernel then
          .error .invalidJitKernel
        else
          dlpGemmValidateMetadataWithLcntx packed (some metadata) >>=
            fun _ => .ok packed
      else .error .invalidJitKernel) := by
  unfold gemmCntx
  rw [mergedCall_native supported, merges]
  dsimp only [Except.map, bind, Except.bind]
  rw [admitted_undescribed hints absent call, supported]
  dsimp only
  rw [Bool.true_and]

/-- A call that finds a kernel is refused for its block sizes exactly when
the kernels are generated and a stated size was changed. -/
theorem refused_iff
    (supported : supportsPackB engine.machine.processor backend = true)
    (merges : dlpGemmUpdCntxWithMetadata (globalCntx engine backend supThres)
      (some metadata) = .ok merged)
    (hints : dlpGemmValidateHints merged = .ok ())
    (absent : Undescribed merged)
    (thresholds : metadata.supThresholds.all
      (validateSupThresholds · merged.supThres) = true)
    (found : dlpGetGemmKernelInfoByDtype engine backend call
      (hintsOf (merged.withThreads call.rntm)) = some (info, threads))
    (high : info.dims.mr ≠ 0) (wide : info.dims.nr ≠ 0) :
    gemmCntx engine backend supThres call (some metadata) =
        .error .invalidBlockParams ↔
      engine.jitKernel call info = true ∧
        (1 < info.dims.nr →
          engine.jitPackBKernel info.dims.nr (decide (call.csB ≠ 1)) =
            true) ∧
        ¬ Kept metadata (settledBlksz merged info) := by
  rw [gemmCntx_undescribed supported merges hints absent]
  have settled := inits_of_found supported found high wide
  revert settled
  generalize dlpInitAndGetKernelHndl engine backend call
    (merged.withThreads call.rntm) = settled
  dsimp only
  generalize dlpInitAndGetPackbKernelHndl engine backend call.n call.k
    call.csB settled = packed
  rintro ⟨kernel, inits⟩
  have sizes := @validate_iff metadata packed (by
    rw [inits.supThres]
    exact thresholds)
  have blksz : packed.blksz = settledBlksz merged info := inits.blksz
  rw [blksz] at sizes
  have NR : packed.blksz.NR = info.dims.nr := congrArg _ blksz
  rw [kernel, inits.packB, NR]
  cases engine.jitKernel call info with
  | false => simp
  | true =>
      rw [if_pos rfl]
      by_cases lacks : 1 < info.dims.nr ∧
          engine.jitPackBKernel info.dims.nr (decide (call.csB ≠ 1)) = false
      · rw [decide_eq_true lacks.1, lacks.2]
        simp [lacks.1]
      · have generated : 1 < info.dims.nr →
            engine.jitPackBKernel info.dims.nr (decide (call.csB ≠ 1)) =
              true := by
          intro several
          by_contra failed
          exact lacks ⟨several, Bool.eq_false_of_not_eq_true failed⟩
        have passes : (decide (1 < info.dims.nr) &&
            !engine.jitPackBKernel info.dims.nr (decide (call.csB ≠ 1))) =
              false := by
          simpa using generated
        rw [passes, if_neg Bool.false_ne_true, ← sizes]
        cases outcome : dlpGemmValidateMetadataWithLcntx packed
            (some metadata) with
        | ok _ => simp [bind, Except.bind]
        | error code =>
            cases validate_error outcome
            exact iff_of_true rfl ⟨rfl, generated, nofun⟩

theorem kernel_absent
    (none_found : dlpGetGemmKernelInfoByDtype engine backend call
      (hintsOf (merged.withThreads call.rntm)) = none) :
    (dlpInitAndGetKernelHndl engine backend call
      (merged.withThreads call.rntm)).hasKernel = false := by
  unfold dlpInitAndGetKernelHndl
  rw [none_found]

end Calls

/-! ## What an accepted reorder establishes -/

/-- A stated size is kept when it is unset or the size in force. -/
theorem keepsStated_iff {stated : Int} {current : Nat} :
    keepsStated stated current = true ↔ stated ≤ 0 ∨ current = stated := by
  unfold keepsStated
  split
  next positive =>
    rw [beq_iff_eq]
    omega
  next unset => exact iff_of_true rfl (Or.inl (not_lt.mp unset))

theorem table_tile (processor : Processor) (backend : GemmBackend) :
    let table := dlpGemmCntxInitBlkszMap processor (operationType backend)
    table.MR = 6 ∧ table.NR = 64 := by
  unfold dlpGemmCntxInitBlkszMap withZen3Override
  cases backend <;> dsimp only <;> split_ifs <;> exact ⟨rfl, rfl⟩

/-- The merged context of a reorder that its entry accepts. -/
structure AcceptedPanel (engine : Engine) (backend : GemmBackend)
    (supThres : DlpGemmSupThreshold) (metadata : DlpMetadata)
    (merged : DlpGemmCntx) : Prop where
  merges : dlpGemmUpdCntxWithMetadata (globalCntx engine backend supThres)
    (some metadata) = .ok merged
  hints : dlpGemmValidateHints merged = .ok ()
  supported : supportsPackB engine.machine.processor backend = true
  absent : Undescribed merged
  thresholds : metadata.supThresholds.all
    (validateSupThresholds · merged.supThres) = true
  mask : merged.blkszSetMask = dlpGemmBlkszProvenance metadata.stated
  MR : merged.blksz.MR = statedOr metadata.stated.MR 6
  NR : merged.blksz.NR = statedOr metadata.stated.NR 64
  NR_pos : merged.blksz.NR ≠ 0
  KC : 0 < metadata.stated.KC →
    merged.blksz.KC = metadata.stated.KC.toNat
  MC : 0 < metadata.stated.MC →
    merged.blksz.MC = metadata.stated.MC.toNat ∧
      merged.blksz.MR ∣ merged.blksz.MC
  NC : keepsStated metadata.stated.NC
    (roundUp merged.blksz.NC merged.blksz.NR) = true
  depth : backend ≠ .bf16 → 4 ∣ merged.blksz.KC

theorem upd_stated {engine : Engine} {backend : GemmBackend}
    {supThres : DlpGemmSupThreshold} {metadata : DlpMetadata}
    {merged : DlpGemmCntx}
    (merges : dlpGemmUpdCntxWithMetadata (globalCntx engine backend supThres)
      (some metadata) = .ok merged) :
    merged.blksz.MR = statedOr metadata.stated.MR 6 ∧
      merged.blksz.NR = statedOr metadata.stated.NR 64 ∧
      (0 < metadata.stated.KC →
        merged.blksz.KC = metadata.stated.KC.toNat) ∧
      (0 < metadata.stated.MC →
        merged.blksz.MC = metadata.stated.MC.toNat) := by
  have tile := table_tile engine.machine.processor backend
  rw [upd_blksz merges]
  unfold DlpMetadata.statedBlksz DlpMetadata.stated
  cases metadata.blockParams with
  | none =>
      exact ⟨tile.1, tile.2, fun positive => absurd positive (by decide),
        fun positive => absurd positive (by decide)⟩
  | some params =>
      refine ⟨?_, ?_, fun positive => if_pos positive, fun positive => ?_⟩
      · change statedOr params.MR (dlpGemmCntxInitBlkszMap _ _).MR = _
        rw [tile.1]
        rfl
      · change statedOr params.NR (dlpGemmCntxInitBlkszMap _ _).NR = _
        rw [tile.2]
        rfl
      · exact (if_neg (not_le.mpr positive)).trans (if_pos positive)

theorem packb_supThres (engine : Engine) (backend : GemmBackend)
    (n k csB : Nat) (cntx : DlpGemmCntx) :
    (dlpInitAndGetPackbKernelHndl engine backend n k csB cntx).supThres =
      cntx.supThres := by
  unfold dlpInitAndGetPackbKernelHndl
  split
  · rfl
  · split <;> rfl

/-- Sizes that a validated metadata states are the ones of the context. -/
theorem stated_of_valid {metadata : DlpMetadata} {blksz : DlpGemmBlockSize}
    (valid : metadata.blockParams.all (validateBlockParams · blksz) = true) :
    keepsStated metadata.stated.NC blksz.NC = true ∧
      (0 < metadata.stated.MC → blksz.MR ∣ blksz.MC) := by
  unfold DlpMetadata.stated
  cases given : metadata.blockParams with
  | none => exact ⟨rfl, fun positive => absurd positive (by decide)⟩
  | some params =>
      rw [given, Option.all_some] at valid
      simp only [validateBlockParams, Bool.and_eq_true, beq_iff_eq] at valid
      exact ⟨valid.1.1.2, fun _ => Nat.dvd_of_mod_eq_zero valid.1.2⟩

/-- The int8 reorders pass only depths of whole fours. -/
theorem depth_of_nativeReorder {engine : Engine} {backend : GemmBackend}
    {supThres : DlpGemmSupThreshold} {n k csB : Nat}
    {metadata : Option DlpMetadata} {lcntx reordered : DlpGemmCntx}
    (enters : nativeReorderCntx engine backend supThres n k csB metadata =
      .ok lcntx)
    (packs : nativeReorder engine backend supThres n k csB metadata =
      .ok reordered) (int8 : backend ≠ .bf16) : 4 ∣ lcntx.blksz.KC := by
  unfold nativeReorder at packs
  rw [enters] at packs
  cases backend with
  | bf16 => exact absurd rfl int8
  | u8s8 | s8 =>
      change (if dlpReorderRefBlocksLegal lcntx.blksz.NR 16 lcntx.blksz.KC 4
        then Except.ok lcntx else _) = _ at packs
      split at packs
      next legal =>
        simp only [dlpReorderRefBlocksLegal, Bool.and_eq_true,
          decide_eq_true_eq] at legal
        exact Nat.dvd_of_mod_eq_zero legal.2
      next => cases packs

theorem acceptedPanel_of_ok {engine : Engine} {backend : GemmBackend}
    {supThres : DlpGemmSupThreshold} {n k csB : Nat}
    {metadata : DlpMetadata} {reordered : DlpGemmCntx}
    (unhinted : Unhinted metadata)
    (packs : nativeReorder engine backend supThres n k csB (some metadata) =
      .ok reordered) :
    ∃ merged, AcceptedPanel engine backend supThres metadata merged := by
  rcases bind_ok packs with ⟨lcntx, context, -⟩
  have whole := depth_of_nativeReorder context packs
  rcases bind_ok context with ⟨merged, merges, enters⟩
  rcases bind_ok enters with ⟨_, hints, enters⟩
  dsimp only at enters
  split at enters
  next yields =>
    rcases bind_ok enters with ⟨_, validates, done⟩
    have absent : Undescribed merged := by
      have stated := upd_statedHints rfl merges
      unfold Undescribed
      rw [stated]
      exact unhinted
    rcases packb_of_kernel yields with ⟨supported, positive⟩
    have blksz := packb_blksz n k csB supported positive
    have width := panelNR_undescribed absent engine.machine backend n k
    rw [width] at blksz positive
    rcases upd_stated merges with ⟨MR, NR, KC, MC⟩
    unfold dlpGemmValidateMetadataWithLcntx at validates
    dsimp only at validates
    split at validates
    next accepted =>
      rw [Bool.and_eq_true, packb_supThres, blksz] at accepted
      have sizes := stated_of_valid accepted.1
      have depth : backend ≠ .bf16 → 4 ∣ merged.blksz.KC := by
        cases done
        rw [blksz] at whole
        exact whole
      exact ⟨merged, merges, hints, supported, absent, accepted.2,
        upd_mask rfl merges, MR, NR, positive, KC,
        fun stated => ⟨MC stated, sizes.2 stated⟩, sizes.1, depth⟩
    next => cases validates
  next => cases enters

/-! ## Calls over an accepted panel -/

section Panel

variable {engine : Engine} {backend : GemmBackend}
  {supThres : DlpGemmSupThreshold} {metadata : DlpMetadata}
  {merged : DlpGemmCntx} {call : GemmCall}

/-- Over an accepted panel a call keeps the stated sizes when its kernel
keeps `MR`, `MC` and `KC`. -/
theorem AcceptedPanel.kept_iff
    (panel : AcceptedPanel engine backend supThres metadata merged)
    {info : KernelInfo} (width : info.dims.nr = merged.blksz.NR)
    (high : 0 < info.dims.mr) :
    Kept metadata (settledBlksz merged info) ↔
      (metadata.stated.MR ≤ 0 ∨ info.dims.mr = metadata.stated.MR) ∧
      (metadata.stated.MC ≤ 0 ∨
        info.dims.mr ∣ metadata.stated.MC.toNat) ∧
      (metadata.stated.KC ≤ 0 ∨ info.kc = metadata.stated.KC) := by
  have MC : 0 < metadata.stated.MC →
      (roundUp merged.blksz.MC info.dims.mr = metadata.stated.MC.toNat ↔
        info.dims.mr ∣ metadata.stated.MC.toNat) := by
    intro stated
    rw [(panel.MC stated).1]
    constructor
    · intro fits
      rw [← fits]
      exact dvd_roundUp _ _
    · exact roundUp_of_dvd high
  have NR : keepsStated metadata.stated.NR merged.blksz.NR = true := by
    rw [keepsStated_iff, panel.NR]
    unfold statedOr
    split <;> omega
  have NC := panel.NC
  unfold Kept
  revert MC NR NC
  unfold DlpMetadata.stated
  cases metadata.blockParams with
  | none =>
      intros
      exact iff_of_true nofun
        ⟨Or.inl le_rfl, Or.inl le_rfl, Or.inl le_rfl⟩
  | some params =>
      dsimp only [Option.getD_some]
      intro MC NR NC
      have rowsFit : roundUp merged.blksz.MC info.dims.mr % info.dims.mr =
          0 := Nat.mod_eq_zero_of_dvd (dvd_roundUp _ _)
      have columnsFit : roundUp merged.blksz.NC merged.blksz.NR %
          merged.blksz.NR = 0 := Nat.mod_eq_zero_of_dvd (dvd_roundUp _ _)
      have valid : validateBlockParams params (settledBlksz merged info) =
          true ↔ (keepsStated params.MR info.dims.mr = true ∧
            keepsStated params.MC (roundUp merged.blksz.MC info.dims.mr) =
              true ∧ keepsStated params.KC info.kc = true) := by
        simp [validateBlockParams, settledBlksz, width, NR, NC, rowsFit,
          columnsFit, and_assoc]
      have rows : keepsStated params.MC
          (roundUp merged.blksz.MC info.dims.mr) = true ↔
            params.MC ≤ 0 ∨ info.dims.mr ∣ params.MC.toNat := by
        rw [keepsStated_iff]
        by_cases positive : 0 < params.MC
        · rw [← MC positive]
          omega
        · exact iff_of_true (Or.inl (not_lt.mp positive))
            (Or.inl (not_lt.mp positive))
      rw [← keepsStated_iff, ← rows, ← keepsStated_iff, ← valid]
      exact ⟨fun all => all params rfl, by rintro holds _ ⟨⟩; exact holds⟩

/-- The panel has several columns unless the width is stated as one. -/
theorem AcceptedPanel.wide_iff
    (panel : AcceptedPanel engine backend supThres metadata merged) :
    1 < merged.blksz.NR ↔ metadata.stated.NR ≠ 1 := by
  have NR := panel.NR
  have positive := panel.NR_pos
  unfold statedOr at NR
  split at NR <;> omega

/-- An open row block is the default one. -/
theorem AcceptedPanel.open_rows
    (panel : AcceptedPanel engine backend supThres metadata merged)
    (unset : metadata.stated.MR ≤ 0) :
    merged.blksz.MR = 6 ∧ merged.blkszSetMask.MR = false := by
  refine ⟨panel.MR.trans (if_neg (not_lt.mpr unset)), ?_⟩
  rw [panel.mask]
  exact decide_eq_false (not_lt.mpr unset)

/-- The call that finds no kernel is refused for its kernel. -/
theorem AcceptedPanel.not_refused
    (panel : AcceptedPanel engine backend supThres metadata merged)
    (none_found : dlpGetGemmKernelInfoByDtype engine backend call
      (hintsOf (merged.withThreads call.rntm)) = none) :
    gemmCntx engine backend supThres call (some metadata) ≠
      .error .invalidBlockParams := by
  rw [gemmCntx_undescribed panel.supported panel.merges panel.hints
    panel.absent]
  dsimp only
  rw [kernel_absent none_found, if_neg Bool.false_ne_true]
  exact nofun

/-- Every kernel that the engine asks for is generated. -/
structure Emits (engine : Engine) : Prop where
  kernel : ∀ call info, engine.jitKernel call info = true
  packB : ∀ panelDim transposed,
    engine.jitPackBKernel panelDim transposed = true

/-- Where every kernel is generated, a served call keeps the sizes. -/
theorem AcceptedPanel.kept_of_served
    (panel : AcceptedPanel engine backend supThres metadata merged)
    (emits : Emits engine) {info : KernelInfo}
    {threads : DlpGemmThreadInfo}
    (found : dlpGetGemmKernelInfoByDtype engine backend call
      (hintsOf (merged.withThreads call.rntm)) = some (info, threads))
    (high : 0 < info.dims.mr) (width : info.dims.nr = merged.blksz.NR)
    (served : gemmCntx engine backend supThres call (some metadata) ≠
      .error .invalidBlockParams) :
    Kept metadata (settledBlksz merged info) := by
  by_contra changed
  refine served ((refused_iff panel.supported panel.merges panel.hints
    panel.absent panel.thresholds found high.ne' ?_).mpr
      ⟨emits.kernel _ _, fun _ => emits.packB _ _, changed⟩)
  rw [width]
  exact panel.NR_pos

end Panel

end AoclDlp.DecisionEngine.UnhintedPanel
