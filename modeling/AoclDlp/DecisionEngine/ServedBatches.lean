import AoclDlp.DecisionEngine.InitRange

/-!
# Batches that a reordered panel serves

A reorder and every later GEMM over its panel validate the same stated block
sizes, each against the context that its own inits left.  The kernel init of a
GEMM depends on the rows of the call: one row gets a one-row kernel, with the
BF16 depth fixed, and a skinny BF16 panel gets a kernel as high as the batch.
So a metadata that the reorder accepts serves every batch exactly when it
states no row block of several rows, no BF16 depth but the fixed one, no BF16
`MC` that some skinny kernel would have to round, and no `MC` or int8 `KC` so
near the maximum of the signed 64-bit type that a kernel would round it past
the type.
-/

namespace AoclDlp.DecisionEngine.ServedBatches

open AoclDlp.Config.BlockSize
open AoclDlp.Config.LocalContext
open AoclDlp.DecisionEngine.InitRange
open AoclDlp.DecisionEngine.KernelInit
open AoclDlp.DecisionEngine.PanelAgreement
open AoclDlp.DecisionEngine.ShapeModel
open AoclDlp.DecisionEngine.UnhintedPanel
open AoclDlp.Foundations.Rounding

/-- The height of the tallest kernel over a panel whose stated sizes every
kernel keeps. -/
def tallestMr (backend : GemmBackend) (n : Nat) (stated : DlpGemmBlocking) :
    Nat :=
  if 0 < stated.MR ∨ stated.NR = 1 then 1
  else if backend = .bf16 ∧ n ≤ 16 then 16
  else 6

/-- The stated sizes are ones that every kernel over the panel keeps, and
that no kernel rounds past the 64-bit type. -/
structure ServesEvery (backend : GemmBackend) (n : Nat)
    (stated : DlpGemmBlocking) : Prop where
  rows : stated.MR ≤ 1
  depth : backend = .bf16 → stated.KC ≤ 0 ∨ stated.KC = 4096
  skinny : backend = .bf16 → n ≤ 16 → stated.MR ≤ 0 → stated.NR ≠ 1 →
    0 < stated.MC → ∀ rows : Nat, 2 ≤ rows → rows ≤ 16 →
      rows ∣ stated.MC.toNat
  block : 0 < stated.MC → stated.MC + tallestMr backend n stated < 2 ^ 63
  deep : backend ≠ .bf16 → 0 < stated.KC → stated.KC + 4 < 2 ^ 63

/-! ## Which batches are served -/

section Batches

variable {engine : Engine} {backend : GemmBackend}
  {supThres : DlpGemmSupThreshold} {metadata : DlpMetadata}
  {merged : DlpGemmCntx} {call : GemmCall}

/-- A call is served: no rounding leaves the 64-bit type and no stated size
is refused. -/
def Served (engine : Engine) (backend : GemmBackend)
    (supThres : DlpGemmSupThreshold) (metadata : Option DlpMetadata)
    (call : GemmCall) : Prop :=
  gemmStays engine backend supThres call metadata = true ∧
    gemmCntx engine backend supThres call metadata ≠
      .error .invalidBlockParams

/-- A call that finds a kernel is served when its depth and its rows stay in
the type and the kernel keeps the stated sizes. -/
theorem served_of_found
    (panel : RangedPanel engine backend supThres metadata merged)
    {info : KernelInfo} {threads : DlpGemmThreadInfo}
    (found : dlpGetGemmKernelInfoByDtype engine backend call
      (hintsOf (merged.withThreads call.rntm)) = some (info, threads))
    (high : 0 < info.dims.mr) (width : info.dims.nr = merged.blksz.NR)
    (depth : kernelInfoStays engine backend call
      (hintsOf (merged.withThreads call.rntm)) = true)
    (block : merged.blksz.MC + info.dims.mr < 2 ^ 63)
    (kept : Kept metadata (settledBlksz merged info)) :
    Served engine backend supThres (some metadata) call := by
  refine ⟨(panel.gemmStays_iff found high width).mpr ⟨depth, block⟩,
    fun refused => ?_⟩
  have wide : info.dims.nr ≠ 0 := by
    rw [width]
    exact panel.NR_pos
  exact ((refused_iff panel.supported panel.merges panel.hints
    panel.absent panel.thresholds found high.ne' wide).mp
      refused).2.2 kept

/-- The depth of every kernel is the stated one, and stays in the type. -/
theorem depth_kept
    (panel : RangedPanel engine backend supThres metadata merged)
    {n : Nat} (every : ServesEvery backend n metadata.stated) {kc : Nat}
    (depth : kc = gemvKc backend merged.blksz.KC ∨ kc = merged.blksz.KC) :
    kc + kPackFactor backend < 2 ^ 63 ∧
      (metadata.stated.KC ≤ 0 ∨
        ((roundUp kc (kPackFactor backend) : Nat) : Int) =
          metadata.stated.KC) := by
  have small := panel.unset.2
  have KC := panel.KC
  have int8 (int8 : backend ≠ .bf16) (pack : kPackFactor backend = 4)
      (same : kc = merged.blksz.KC) :
      kc + kPackFactor backend < 2 ^ 63 ∧
        (metadata.stated.KC ≤ 0 ∨
          ((roundUp kc (kPackFactor backend) : Nat) : Int) =
            metadata.stated.KC) := by
    have whole : 4 ∣ kc := by
      rw [same]
      exact panel.depth int8
    rw [pack, roundUp_of_dvd (by decide) whole]
    have deep := every.deep int8
    omega
  cases backend with
  | u8s8 => exact int8 nofun rfl (depth.elim id id)
  | s8 => exact int8 nofun rfl (depth.elim id id)
  | bf16 =>
      rcases every.depth rfl with unset | fixed
      · refine ⟨?_, Or.inl unset⟩
        change kc = 4096 ∨ _ at depth
        change kc + 2 < _
        omega
      · have same : kc = 4096 := by
          change kc = 4096 ∨ _ at depth
          omega
        rw [same, fixed]
        exact ⟨by decide, Or.inr (by decide)⟩

/-- `MC` stays in the type under every kernel up to the tallest. -/
theorem block_stays
    (panel : RangedPanel engine backend supThres metadata merged)
    {n : Nat} (every : ServesEvery backend n metadata.stated) {mr : Nat}
    (height : mr ≤ tallestMr backend n metadata.stated) :
    merged.blksz.MC + mr < 2 ^ 63 := by
  by_cases stated : 0 < metadata.stated.MC
  · have block := every.block stated
    have size := (panel.MC stated).1
    omega
  · have small := panel.unset.1 (not_lt.mp stated)
    have MR : merged.blksz.MR ≤ 6 := by
      have few := every.rows
      rw [panel.MR, statedOr]
      split <;> omega
    have tallest : tallestMr backend n metadata.stated ≤ 16 := by
      unfold tallestMr
      split_ifs <;> omega
    omega

/-- Over open rows and several columns the tallest kernel is the default one,
or a skinny one. -/
theorem tallestMr_open {stated : DlpGemmBlocking} (rows : stated.MR ≤ 0)
    (columns : stated.NR ≠ 1) (backend : GemmBackend) (n : Nat) :
    tallestMr backend n stated =
      if backend = .bf16 ∧ n ≤ 16 then 16 else 6 :=
  if_neg (not_or.mpr ⟨not_lt.mpr rows, columns⟩)

/-- The rows of a kernel for several rows divide the stated `MC` and are at
most those of the tallest. -/
theorem rows_kept
    (panel : RangedPanel engine backend supThres metadata merged)
    (every : ServesEvery backend call.n metadata.stated)
    (several : 2 ≤ call.m) (rows : metadata.stated.MR ≤ 0)
    (columns : metadata.stated.NR ≠ 1) :
    let mr := gemmMr engine.machine.processor backend call merged
    0 < mr ∧ mr ≤ tallestMr backend call.n metadata.stated ∧
      (metadata.stated.MC ≤ 0 ∨ mr ∣ metadata.stated.MC.toNat) := by
  rcases panel.open_rows rows with ⟨MR, free⟩
  have tallest := tallestMr_open rows columns backend call.n
  have default : 0 < merged.blksz.MR ∧
      merged.blksz.MR ≤ tallestMr backend call.n metadata.stated ∧
      (metadata.stated.MC ≤ 0 ∨
        merged.blksz.MR ∣ metadata.stated.MC.toNat) := by
    refine ⟨by omega, ?_, ?_⟩
    · rw [tallest, MR]
      split <;> decide
    · by_cases stated : 0 < metadata.stated.MC
      · rcases panel.MC stated with ⟨size, divides⟩
        rw [size] at divides
        exact Or.inr divides
      · exact Or.inl (not_lt.mp stated)
  cases backend with
  | u8s8 => exact default
  | s8 => exact default
  | bf16 =>
      have positive : 0 < call.m := by omega
      unfold gemmMr
      dsimp only
      rw [decide_eq_true positive, Bool.and_true]
      by_cases skinny : call.n ≤ 16
      · rw [decide_eq_true skinny]
        have bounds := skinnyMr_bounds engine.machine.processor 2
          merged.blksz.MR free several
        rw [tallest, if_pos ⟨rfl, skinny⟩]
        refine ⟨by omega, bounds.2, ?_⟩
        by_cases stated : 0 < metadata.stated.MC
        · exact Or.inr (every.skinny rfl skinny rows columns stated _
            bounds.1 bounds.2)
        · exact Or.inl (not_lt.mp stated)
      · rw [decide_eq_false skinny]
        exact default

/-- The sizes under which every batch is served. -/
theorem served_of_every
    (panel : RangedPanel engine backend supThres metadata merged)
    (every : ServesEvery backend call.n metadata.stated)
    (columns : 2 ≤ call.n) (rows : 1 ≤ call.m)
    (tag : call.mtagB = .reordered) :
    Served engine backend supThres (some metadata) call := by
  have found := @kernelInfo_undescribed engine backend
    (merged.withThreads call.rntm) call panel.supported columns tag
    panel.absent
  have depth := @kernelInfoStays_iff engine backend
    (merged.withThreads call.rntm) call panel.supported columns
  by_cases single : call.m = 1
  · rw [if_pos single] at found depth
    have kept := depth_kept panel every (Or.inl rfl)
    have lowest : 1 ≤ tallestMr backend call.n metadata.stated := by
      unfold tallestMr
      split_ifs <;> omega
    have few := every.rows
    refine served_of_found panel found Nat.one_pos rfl (depth.mpr kept.1)
      (block_stays panel every lowest) ((panel.kept_iff rfl
        Nat.one_pos).mpr ⟨?_, Or.inr (one_dvd _), kept.2⟩)
    dsimp only
    omega
  · rw [if_neg single] at found depth
    by_cases flat : merged.blksz.MR ≤ 1 ∨ merged.blksz.NR ≤ 1
    · have absent := found.trans (if_pos flat)
      exact ⟨panel.gemmStays_none absent (depth.mpr (absurd flat)),
        panel.not_refused absent⟩
    · have several : 2 ≤ call.m := by omega
      have wide : 1 < merged.blksz.NR := by omega
      have open_rows : metadata.stated.MR ≤ 0 := by
        have few := every.rows
        have MR := panel.MR
        unfold statedOr at MR
        split at MR <;> omega
      rcases rows_kept panel every several open_rows
        (panel.wide_iff.mp wide) with ⟨high, height, divides⟩
      have kept := depth_kept panel every (Or.inr rfl)
      exact served_of_found panel (found.trans (if_neg flat)) high rfl
        (depth.mpr fun _ => kept.1) (block_stays panel every height)
        ((panel.kept_iff rfl high).mpr ⟨Or.inl open_rows, divides, kept.2⟩)

/-- A single-threaded call of the given rows over a reordered panel. -/
def batchCall (m n k : Nat) : GemmCall :=
  ⟨m, n, k, k, 1, .pack, .reordered, ⟨1, -1, -1⟩, false⟩

/-- The rows of a kernel over a packed A: those of the call where the panel
is skinny. -/
theorem batchCall_mr
    (panel : RangedPanel engine backend supThres metadata merged)
    (unset : metadata.stated.MR ≤ 0) {rows : Nat} (several : 2 ≤ rows)
    (few : rows ≤ 16) (n k : Nat) :
    gemmMr engine.machine.processor backend (batchCall rows n k) merged =
      if backend = .bf16 ∧ n ≤ 16 then rows else 6 := by
  rcases panel.open_rows unset with ⟨MR, free⟩
  cases backend with
  | u8s8 => exact MR.trans (if_neg fun both => nomatch both.1).symm
  | s8 => exact MR.trans (if_neg fun both => nomatch both.1).symm
  | bf16 =>
      have positive : 0 < rows := by omega
      unfold gemmMr
      change skinnyMr _ _ _ 2 (decide (n ≤ 16) && decide (0 < rows)) _ = _
      rw [decide_eq_true positive, Bool.and_true]
      by_cases skinny : n ≤ 16
      · rw [decide_eq_true skinny, if_pos ⟨rfl, skinny⟩]
        exact skinnyMr_packed _ 2 _ free rfl few
      · rw [decide_eq_false skinny, if_neg fun both => skinny both.2]
        exact MR

/-- Where every kernel is generated, a served call of several rows stays in
the type and its rows divide the stated `MC`. -/
theorem rows_of_served
    (panel : RangedPanel engine backend supThres metadata merged)
    (emits : Emits engine) {n k : Nat} (columns : 2 ≤ n)
    (unset : metadata.stated.MR ≤ 0) (wide : metadata.stated.NR ≠ 1)
    (stated : 0 < metadata.stated.MC) {rows : Nat} (several : 2 ≤ rows)
    (few : rows ≤ 16)
    (served : Served engine backend supThres (some metadata)
      (batchCall rows n k)) :
    let mr := if backend = .bf16 ∧ n ≤ 16 then rows else 6
    metadata.stated.MC.toNat + mr < 2 ^ 63 ∧
      mr ∣ metadata.stated.MC.toNat := by
  have manyRows : ¬ (batchCall rows n k).m = 1 := by
    change ¬ rows = 1
    omega
  have block : ¬ (merged.blksz.MR ≤ 1 ∨ merged.blksz.NR ≤ 1) := by
    have MR := (panel.open_rows unset).1
    have NR := panel.wide_iff.mpr wide
    omega
  have found := @kernelInfo_undescribed engine backend
    (merged.withThreads ⟨1, -1, -1⟩) (batchCall rows n k) panel.supported
    columns rfl panel.absent
  have found := (found.trans (if_neg manyRows)).trans (if_neg block)
  have height : gemmMr engine.machine.processor backend
      (batchCall rows n k) (merged.withThreads ⟨1, -1, -1⟩) = _ :=
    batchCall_mr panel unset several few n k
  rw [height] at found
  have high : 0 < if backend = .bf16 ∧ n ≤ 16 then rows else 6 := by
    split <;> omega
  have stays := ((panel.gemmStays_iff found high rfl).mp served.1).2
  have kept := (panel.kept_iff rfl high).mp
    (panel.kept_of_served emits found high rfl served.2)
  rw [(panel.MC stated).1] at stays
  exact ⟨stays, kept.2.1.resolve_left (not_le.mpr stated)⟩

/-- Where every batch is served, the stated sizes are ones that all kernels
keep and that none rounds past the type. -/
theorem servesEvery
    (panel : RangedPanel engine backend supThres metadata merged)
    (emits : Emits engine) {n k : Nat} (columns : 2 ≤ n)
    (served : ∀ m, 1 ≤ m → Served engine backend supThres (some metadata)
      (batchCall m n k)) :
    ServesEvery backend n metadata.stated := by
  have oneRow := (@kernelInfo_undescribed engine backend
    (merged.withThreads ⟨1, -1, -1⟩) (batchCall 1 n k) panel.supported
    columns rfl panel.absent).trans (if_pos rfl)
  have one := (panel.kept_iff rfl Nat.one_pos).mp
    (panel.kept_of_served emits oneRow Nat.one_pos rfl (served 1 le_rfl).2)
  have stays := (panel.gemmStays_iff oneRow Nat.one_pos rfl).mp
    (served 1 le_rfl).1
  refine ⟨?_, ?_, ?_, ?_, ?_⟩
  · rcases one.1 with unset | single
    · omega
    · dsimp only at single
      omega
  · rintro rfl
    rcases one.2.2 with unset | depth
    · exact Or.inl unset
    · have whole : ((roundUp 4096 2 : Nat) : Int) = 4096 := by decide
      exact Or.inr (depth.symm.trans whole)
  · rintro rfl skinny unset wide stated rows several few
    have kept := rows_of_served panel emits columns unset wide stated
      several few (served rows (by omega))
    dsimp only at kept
    rw [if_pos ⟨rfl, skinny⟩] at kept
    exact kept.2
  · intro stated
    by_cases narrow : 0 < metadata.stated.MR ∨ metadata.stated.NR = 1
    · have block := stays.2
      dsimp only at block
      rw [(panel.MC stated).1] at block
      rw [tallestMr, if_pos narrow]
      omega
    · have unset : metadata.stated.MR ≤ 0 := by omega
      have wide : metadata.stated.NR ≠ 1 := fun one => narrow (Or.inr one)
      have kept := (rows_of_served panel emits columns unset wide stated
        (show 2 ≤ 16 by decide) le_rfl (served 16 (by decide))).1
      rw [tallestMr_open unset wide]
      omega
  · intro int8 stated
    have depth := (kernelInfoStays_iff panel.supported columns).mp stays.1
    have single : (batchCall 1 n k).m = 1 := rfl
    rw [if_pos single] at depth
    have KC := panel.KC stated
    cases backend with
    | bf16 => exact absurd rfl int8
    | u8s8 | s8 =>
        change merged.blksz.KC + 4 < _ at depth
        omega

theorem validateHintsWithCall_error {cntx : DlpGemmCntx}
    {mtagB : MemoryTag} {numThreads icWays jcWays : Int}
    {code : DlpClscErr}
    (refused : dlpGemmValidateHintsWithCall cntx mtagB numThreads icWays
      jcWays = .error code) : code ≠ .invalidBlockParams := by
  rintro rfl
  unfold dlpGemmValidateHintsWithCall dlpGemmValidateHints at refused
  split at refused
  · cases refused
  · dsimp only [bind, Except.bind] at refused
    split_ifs at refused
    cases refused

/-- Without metadata no call is refused for its block sizes. -/
theorem served_without_metadata :
    gemmCntx engine backend supThres call none ≠
      .error .invalidBlockParams := by
  intro refused
  unfold gemmCntx at refused
  cases entered : mergedCall engine backend supThres call none with
  | error code =>
      rw [entered] at refused
      cases refused
      unfold mergedCall updBf16Cntx dlpGemmUpdCntxWithMetadata at entered
      cases backend with
      | bf16 =>
          dsimp only [bind, Except.bind] at entered
          split_ifs at entered
          all_goals cases entered
      | u8s8 => cases entered
      | s8 => cases entered
  | ok both =>
      rw [entered] at refused
      dsimp only [bind, Except.bind] at refused
      split at refused
      next code rejects =>
        cases refused
        exact validateHintsWithCall_error rejects rfl
      next =>
        split_ifs at refused
        all_goals cases refused

/-- An empty metadata is an accepted panel of the tables. -/
theorem emptyPanel
    (supported : supportsPackB engine.machine.processor backend = true) :
    RangedPanel engine backend supThres ⟨none, none, none⟩
      (globalCntx engine backend supThres) where
  merges := rfl
  hints := rfl
  supported := supported
  absent := Or.inl rfl
  thresholds := rfl
  mask := rfl
  MR := (table_tile engine.machine.processor backend).1
  NR := (table_tile engine.machine.processor backend).2
  NR_pos := by
    change (dlpGemmCntxInitBlkszMap _ _).NR ≠ 0
    rw [(table_tile engine.machine.processor backend).2]
    decide
  KC := fun stated => absurd stated (by decide)
  MC := fun stated => absurd stated (by decide)
  NC := rfl
  depth := fun _ => (table_small engine.machine.processor backend).2.2.2
  merge := rfl
  columns := by
    change (dlpGemmCntxInitBlkszMap _ _).NC +
      (dlpGemmCntxInitBlkszMap _ _).NR < _
    rw [(table_tile engine.machine.processor backend).2,
      (table_small engine.machine.processor backend).2.2.1]
    decide

/-- Without metadata every call over the panel is served. -/
theorem served_of_none
    (supported : supportsPackB engine.machine.processor backend = true)
    (columns : 2 ≤ call.n) (rows : 1 ≤ call.m)
    (tag : call.mtagB = .reordered) :
    Served engine backend supThres none call := by
  have every : ServesEvery backend call.n
      (DlpMetadata.stated ⟨none, none, none⟩) :=
    ⟨by decide, fun _ => Or.inl le_rfl,
      fun _ _ _ _ stated => absurd stated (by decide),
      fun stated => absurd stated (by decide),
      fun _ stated => absurd stated (by decide)⟩
  have panel := @emptyPanel engine backend supThres supported
  have same : gemmStays engine backend supThres call none =
      gemmStays engine backend supThres call (some ⟨none, none, none⟩) := by
    unfold gemmStays mergedCall
    cases backend <;> rfl
  refine ⟨?_, served_without_metadata⟩
  rw [same]
  exact (served_of_every panel every columns rows tag).1

/--
A metadata that a native reorder accepts serves the calls of every batch size
whenever it states only sizes that every kernel over the panel keeps within
the 64-bit type; where every kernel is generated, it serves them only then.
Calls without metadata are served always.
-/
theorem reorder_serves_every_batch {n k csB : Nat}
    {reordered : DlpGemmCntx} (columns : 2 ≤ n)
    (unhinted : Unhinted metadata)
    (stays : nativeReorderStays engine backend supThres n k
      (some metadata) = true)
    (packs : nativeReorder engine backend supThres n k csB (some metadata) =
      .ok reordered) :
    (ServesEvery backend n metadata.stated →
      ∀ call : GemmCall, call.n = n → call.k = k →
        call.mtagB = .reordered → 1 ≤ call.m →
          Served engine backend supThres (some metadata) call) ∧
    (Emits engine →
      (∀ call : GemmCall, call.n = n → call.k = k →
        call.mtagB = .reordered → 1 ≤ call.m →
          Served engine backend supThres (some metadata) call) →
      ServesEvery backend n metadata.stated) ∧
    (∀ call : GemmCall, call.n = n → call.mtagB = .reordered →
      1 ≤ call.m → Served engine backend supThres none call) ∧
    ∀ call : GemmCall, gemmCntx engine backend supThres call none ≠
      .error .invalidBlockParams := by
  rcases rangedPanel_of_ok unhinted stays packs with ⟨merged, panel⟩
  refine ⟨?_, ?_, ?_, fun _ => served_without_metadata⟩
  · rintro every call rfl - tag rows
    exact served_of_every panel every columns rows tag
  · intro emits served
    exact servesEvery panel emits columns fun m rows =>
      served (batchCall m n k) rfl rfl rfl rows
  · rintro call rfl tag rows
    exact served_of_none panel.supported columns rows tag

end Batches

/-- The metadata with the given block sizes and nothing else. -/
def blocksOnly (params : DlpGemmBlocking) : DlpMetadata :=
  ⟨some params, none, none⟩

/-- Stated cache blocks that divide the default tile serve every batch. -/
theorem reorder_serves_every_batch_cache :
    ∃ reordered,
      nativeReorder zen5Engine .s8 ⟨0, 0, 0⟩ 96 64 1
          (some (blocksOnly ⟨288, 512, 1024, 0, 0⟩)) = .ok reordered ∧
        ∀ m, 1 ≤ m → Served zen5Engine .s8 ⟨0, 0, 0⟩
          (some (blocksOnly ⟨288, 512, 1024, 0, 0⟩)) (batchCall m 96 64) := by
  refine ⟨_, rfl, fun m rows => ?_⟩
  refine (@reorder_serves_every_batch zen5Engine .s8 ⟨0, 0, 0⟩
    (blocksOnly ⟨288, 512, 1024, 0, 0⟩) 96 64 1 _ (by decide) (Or.inl rfl)
    (by decide) rfl).1 ⟨by decide, nofun, nofun, by decide, by decide⟩
      (batchCall m 96 64) rfl rfl rfl rows

/-- A panel reordered under a stated row block of six serves eight rows and
refuses one. -/
theorem reorder_refuses_single_row :
    ∃ reordered running,
      nativeReorder zen5Engine .s8 ⟨0, 0, 0⟩ 96 64 1
          (some (blocksOnly ⟨0, 0, 0, 6, 0⟩)) = .ok reordered ∧
        gemmCntx zen5Engine .s8 ⟨0, 0, 0⟩ (batchCall 8 96 64)
          (some (blocksOnly ⟨0, 0, 0, 6, 0⟩)) = .ok running ∧
        gemmCntx zen5Engine .s8 ⟨0, 0, 0⟩ (batchCall 1 96 64)
          (some (blocksOnly ⟨0, 0, 0, 6, 0⟩)) =
            .error .invalidBlockParams :=
  ⟨_, _, rfl, rfl, rfl⟩

end AoclDlp.DecisionEngine.ServedBatches
