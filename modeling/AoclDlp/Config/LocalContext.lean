import AoclDlp.Config.BlockSize
import AoclDlp.Foundations.Rounding

/-!
# The local context of a call

Every entry point copies the global context of its operation type, merges the
caller's metadata into the copy and validates the copy after the kernels are
chosen.  A nonpositive block size, a negative threshold and a zero hint mean
that the caller left the field to the library.

The context keeps the block sizes, the provenance mask, the thresholds, the
hints and the thread record; of a kernel handle it keeps whether the handle
holds a kernel.
-/

namespace AoclDlp.Config.LocalContext

open AoclDlp.Config.BlockSize
open AoclDlp.Foundations.Rounding

/-- `dlp_clsc_err_t` without its success code and its bound. -/
inductive DlpClscErr where
  | failure
  | nullPointer
  | unexpectedVectorDim
  | invalidDataType
  | notSupported
  | invalidOrder
  | invalidTranspose
  | invalidMemoryTag
  | invalidMatrixDimension
  | invalidLeadingDimension
  | invalidMatrixType
  | invalidGroupDimension
  | invalidSfLen
  | invalidZpLen
  | typeMismatch
  | invalidJitKernel
  | invalidKernel
  | invalidBlockParams
  | invalidSupThresholds
  | invalidGemmHints
  | hintMismatch
  deriving DecidableEq, Repr

/-- `dlp_gemm_blocking_t`. -/
structure DlpGemmBlocking where
  MC : Int
  NC : Int
  KC : Int
  MR : Int
  NR : Int
  deriving DecidableEq, Repr

/-- `dlp_gemm_sup_threshold_t`. -/
structure DlpGemmSupThreshold where
  MT : Int
  NT : Int
  KT : Int
  deriving DecidableEq, Repr

/-- `dlp_gemm_hints_t` and its copy `dlp_gemm_kernel_hints_t`. -/
structure DlpGemmHints where
  mHint : Int
  ntHint : Int
  deriving DecidableEq, Repr

/-- The fields of `dlp_metadata_t` that reach the local context. -/
structure DlpMetadata where
  blockParams : Option DlpGemmBlocking
  supThresholds : Option DlpGemmSupThreshold
  gemmHints : Option DlpGemmHints
  deriving DecidableEq, Repr

/-- `dlp_gemm_thread_info_t`. -/
structure DlpGemmThreadInfo where
  numThreads : Int
  icWays : Int
  jcWays : Int
  deriving DecidableEq, Repr

/-- The `DLP_BLKSZ_SET_*` bits of `blksz_set_mask`. -/
structure BlkszSetMask where
  MC : Bool
  NC : Bool
  KC : Bool
  MR : Bool
  NR : Bool
  deriving DecidableEq, Repr

/-- `dlp_gemm_cntx_t`. -/
structure DlpGemmCntx where
  blksz : DlpGemmBlockSize
  supThres : DlpGemmSupThreshold
  blkszSetMask : BlkszSetMask
  gemmKernelHints : DlpGemmHints
  threadInfo : DlpGemmThreadInfo
  hasKernel : Bool
  hasPackBKernel : Bool
  deriving DecidableEq, Repr

/-- `dlp_gemm_get_global_cntx_obj` after start-up; `supThres` is the
operation's entry of the threshold map. -/
def dlpGemmGetGlobalCntxObj (processor : Processor)
    (supThres : DlpGemmSupThreshold) (op : OperationType) : DlpGemmCntx where
  blksz := dlpGemmCntxInitBlkszMap processor op
  supThres := supThres
  blkszSetMask := ⟨false, false, false, false, false⟩
  gemmKernelHints := ⟨0, 0⟩
  threadInfo := ⟨0, 0, 0⟩
  hasKernel := false
  hasPackBKernel := false

/-- The context of a call with the runtime's thread record. -/
def DlpGemmCntx.withThreads (lcntx : DlpGemmCntx)
    (threads : DlpGemmThreadInfo) : DlpGemmCntx :=
  { lcntx with threadInfo := threads }

/-! ## Merging the metadata -/

/-- A block size of the caller, or the context's where it is unset. -/
def statedOr (stated : Int) (current : Nat) : Nat :=
  if 0 < stated then stated.toNat else current

/-- `dlp_gemm_blksz_provenance`. -/
def dlpGemmBlkszProvenance (params : DlpGemmBlocking) : BlkszSetMask where
  MC := decide (0 < params.MC)
  NC := decide (0 < params.NC)
  KC := decide (0 < params.KC)
  MR := decide (0 < params.MR)
  NR := decide (0 < params.NR)

/-- The block sizes with the caller's stated ones on top. -/
def mergeBlksz (params : DlpGemmBlocking) (blksz : DlpGemmBlockSize) :
    DlpGemmBlockSize where
  MC := statedOr params.MC blksz.MC
  NC := statedOr params.NC blksz.NC
  KC := statedOr params.KC blksz.KC
  MR := statedOr params.MR blksz.MR
  NR := statedOr params.NR blksz.NR

/-- An unset `MC` or `NC` is rounded to the merged tile. -/
def alignUnset (params : DlpGemmBlocking) (merged : DlpGemmBlockSize) :
    DlpGemmBlockSize where
  MC := if params.MC ≤ 0 then roundUp merged.MC merged.MR else merged.MC
  NC := if params.NC ≤ 0 then roundUp merged.NC merged.NR else merged.NC
  KC := merged.KC
  MR := merged.MR
  NR := merged.NR

/-- The block-size part of `dlp_gemm_upd_cntx_with_metadata`. -/
def updBlockParams (lcntx : DlpGemmCntx) :
    Option DlpGemmBlocking → Except DlpClscErr DlpGemmCntx
  | none => .ok lcntx
  | some params =>
      let merged := mergeBlksz params lcntx.blksz
      if merged.MC = 0 ∨ merged.NC = 0 ∨ merged.KC = 0 ∨ merged.MR = 0 ∨
          merged.NR = 0 then
        .error .invalidBlockParams
      else
        .ok { lcntx with
          blksz := alignUnset params merged
          blkszSetMask := dlpGemmBlkszProvenance params }

/-- The threshold part of `dlp_gemm_upd_cntx_with_metadata`. -/
def updSupThresholds (lcntx : DlpGemmCntx) :
    Option DlpGemmSupThreshold → DlpGemmCntx
  | none => lcntx
  | some stated =>
      { lcntx with supThres :=
        { MT := if 0 ≤ stated.MT then stated.MT else lcntx.supThres.MT
          NT := if 0 ≤ stated.NT then stated.NT else lcntx.supThres.NT
          KT := if 0 ≤ stated.KT then stated.KT else lcntx.supThres.KT } }

/-- The hint part of `dlp_gemm_upd_cntx_with_metadata`. -/
def updGemmHints (lcntx : DlpGemmCntx) : Option DlpGemmHints → DlpGemmCntx
  | none => lcntx
  | some hints => { lcntx with gemmKernelHints := hints }

/-- `dlp_gemm_upd_cntx_with_metadata`. -/
def dlpGemmUpdCntxWithMetadata (lcntx : DlpGemmCntx) :
    Option DlpMetadata → Except DlpClscErr DlpGemmCntx
  | none => .ok lcntx
  | some metadata => do
      let lcntx ← updBlockParams lcntx metadata.blockParams
      let lcntx := updSupThresholds lcntx metadata.supThresholds
      .ok (updGemmHints lcntx metadata.gemmHints)

/-- The block sizes that a metadata leaves in a context. -/
def DlpMetadata.statedBlksz (metadata : DlpMetadata)
    (blksz : DlpGemmBlockSize) : DlpGemmBlockSize :=
  match metadata.blockParams with
  | none => blksz
  | some params => alignUnset params (mergeBlksz params blksz)

/-- The stated block sizes; a nonpositive size is unset. -/
def DlpMetadata.stated (metadata : DlpMetadata) : DlpGemmBlocking :=
  metadata.blockParams.getD ⟨0, 0, 0, 0, 0⟩

/-- The stated hints; a zero is unset. -/
def DlpMetadata.statedHints (metadata : DlpMetadata) : DlpGemmHints :=
  metadata.gemmHints.getD ⟨0, 0⟩

/-! ## Validation -/

/-- `dlp_gemm_effective_thread_count`. -/
def dlpGemmEffectiveThreadCount (numThreads icWays jcWays : Int) : Int :=
  if 0 < icWays ∨ 0 < jcWays then
    (if 0 < icWays then icWays else 1) * (if 0 < jcWays then jcWays else 1)
  else numThreads

/-- `dlp_gemm_validate_hints`. -/
def dlpGemmValidateHints (lcntx : DlpGemmCntx) : Except DlpClscErr Unit :=
  if lcntx.gemmKernelHints.mHint < 0 ∨ lcntx.gemmKernelHints.ntHint < 0 then
    .error .invalidGemmHints
  else .ok ()

/-- `dlp_gemm_validate_hints_with_call`. -/
def dlpGemmValidateHintsWithCall (lcntx : DlpGemmCntx) (mtagB : MemoryTag)
    (numThreads icWays jcWays : Int) : Except DlpClscErr Unit := do
  dlpGemmValidateHints lcntx
  if mtagB ≠ .reordered then .ok ()
  else if lcntx.gemmKernelHints.mHint = 0 ∨
      lcntx.gemmKernelHints.ntHint = 0 then .ok ()
  else if lcntx.gemmKernelHints.ntHint ≠
      dlpGemmEffectiveThreadCount numThreads icWays jcWays then
    .error .hintMismatch
  else .ok ()

/-- A stated block size is the one in the context. -/
def keepsStated (stated : Int) (current : Nat) : Bool :=
  if 0 < stated then (current : Int) == stated else true

/-- A stated threshold is the one in the context. -/
def keepsThreshold (stated current : Int) : Bool :=
  if 0 ≤ stated then current == stated else true

/-- The block-size half of `dlp_gemm_validate_metadata_with_lcntx`. -/
def validateBlockParams (params : DlpGemmBlocking)
    (blksz : DlpGemmBlockSize) : Bool :=
  keepsStated params.MR blksz.MR && keepsStated params.NR blksz.NR &&
    keepsStated params.MC blksz.MC && keepsStated params.KC blksz.KC &&
    keepsStated params.NC blksz.NC && blksz.MC % blksz.MR == 0 &&
    blksz.NC % blksz.NR == 0

/-- The threshold half of `dlp_gemm_validate_metadata_with_lcntx`. -/
def validateSupThresholds (stated current : DlpGemmSupThreshold) : Bool :=
  keepsThreshold stated.MT current.MT &&
    keepsThreshold stated.NT current.NT &&
    keepsThreshold stated.KT current.KT

/-- `dlp_gemm_validate_metadata_with_lcntx`. -/
def dlpGemmValidateMetadataWithLcntx (lcntx : DlpGemmCntx) :
    Option DlpMetadata → Except DlpClscErr Unit
  | none => .ok ()
  | some metadata =>
      if (metadata.blockParams.all (validateBlockParams · lcntx.blksz)) &&
          (metadata.supThresholds.all
            (validateSupThresholds · lcntx.supThres)) then .ok ()
      else .error .invalidBlockParams

/-! ## Merging does not read the threads -/

theorem updBlockParams_withThreads (lcntx : DlpGemmCntx)
    (threads : DlpGemmThreadInfo) (params : Option DlpGemmBlocking) :
    updBlockParams (lcntx.withThreads threads) params =
      (updBlockParams lcntx params).map (·.withThreads threads) := by
  cases params with
  | none => rfl
  | some params =>
      dsimp only [updBlockParams, DlpGemmCntx.withThreads]
      split
      · rfl
      · rfl

/-- The thread record does not enter the merge. -/
theorem upd_withThreads (lcntx : DlpGemmCntx)
    (threads : DlpGemmThreadInfo) (metadata : Option DlpMetadata) :
    dlpGemmUpdCntxWithMetadata (lcntx.withThreads threads) metadata =
      (dlpGemmUpdCntxWithMetadata lcntx metadata).map
        (·.withThreads threads) := by
  cases metadata with
  | none => rfl
  | some metadata =>
      dsimp only [dlpGemmUpdCntxWithMetadata]
      rw [updBlockParams_withThreads]
      cases updBlockParams lcntx metadata.blockParams with
      | error code => rfl
      | ok blocked =>
          cases metadata.supThresholds <;> cases metadata.gemmHints <;> rfl

/-! ## What a validated context keeps -/

/-- A successful sequence of two fallible steps. -/
theorem bind_ok {Error Value Result : Type} {first : Except Error Value}
    {next : Value → Except Error Result} {result : Result}
    (succeeds : first >>= next = .ok result) :
    ∃ value, first = .ok value ∧ next value = .ok result := by
  cases first with
  | error code => cases succeeds
  | ok value => exact ⟨value, rfl, succeeds⟩

theorem updBlockParams_blksz {lcntx merged : DlpGemmCntx}
    {params : DlpGemmBlocking}
    (merges : updBlockParams lcntx (some params) = .ok merged) :
    merged.blksz = alignUnset params (mergeBlksz params lcntx.blksz) := by
  dsimp only [updBlockParams] at merges
  split at merges
  · cases merges
  · cases merges
    rfl

theorem updBlockParams_KC {lcntx merged : DlpGemmCntx}
    {params : DlpGemmBlocking}
    (merges : updBlockParams lcntx (some params) = .ok merged) :
    merged.blksz.KC = statedOr params.KC lcntx.blksz.KC := by
  rw [updBlockParams_blksz merges]
  rfl

@[simp]
theorem updSupThresholds_blksz (lcntx : DlpGemmCntx)
    (stated : Option DlpGemmSupThreshold) :
    (updSupThresholds lcntx stated).blksz = lcntx.blksz := by
  cases stated <;> rfl

@[simp]
theorem updGemmHints_blksz (lcntx : DlpGemmCntx)
    (hints : Option DlpGemmHints) :
    (updGemmHints lcntx hints).blksz = lcntx.blksz := by
  cases hints <;> rfl

/-- The block sizes after a merge. -/
theorem upd_blksz {lcntx merged : DlpGemmCntx} {metadata : DlpMetadata}
    (merges : dlpGemmUpdCntxWithMetadata lcntx (some metadata) =
      .ok merged) :
    merged.blksz = metadata.statedBlksz lcntx.blksz := by
  rcases bind_ok merges with ⟨blocked, blocks, rest⟩
  cases rest
  simp only [updGemmHints_blksz, updSupThresholds_blksz]
  unfold DlpMetadata.statedBlksz
  cases stated : metadata.blockParams with
  | none =>
      rw [stated] at blocks
      cases blocks
      rfl
  | some params =>
      rw [stated] at blocks
      exact updBlockParams_blksz blocks

theorem statedOr_pos (stated : Int) {current : Nat}
    (positive : 0 < current) : 0 < statedOr stated current := by
  unfold statedOr
  split_ifs with given
  · omega
  · exact positive

theorem DlpMetadata.statedBlksz_KC_pos (metadata : DlpMetadata)
    {blksz : DlpGemmBlockSize} (positive : 0 < blksz.KC) :
    0 < (metadata.statedBlksz blksz).KC := by
  unfold DlpMetadata.statedBlksz
  cases metadata.blockParams with
  | none => exact positive
  | some params => exact statedOr_pos params.KC positive

/-- Merging the metadata keeps the block sizes positive. -/
theorem upd_positive {lcntx merged : DlpGemmCntx}
    {metadata : Option DlpMetadata} (positive : PositiveBlocks lcntx.blksz)
    (merges : dlpGemmUpdCntxWithMetadata lcntx metadata = .ok merged) :
    PositiveBlocks merged.blksz := by
  cases metadata with
  | none =>
      cases merges
      exact positive
  | some metadata =>
      rw [upd_blksz merges]
      unfold DlpMetadata.statedBlksz
      cases metadata.blockParams with
      | none => exact positive
      | some params =>
          have MR := statedOr_pos params.MR positive.MR_pos
          have NR := statedOr_pos params.NR positive.NR_pos
          have MC := statedOr_pos params.MC positive.MC_pos
          have NC := statedOr_pos params.NC positive.NC_pos
          refine ⟨?_, ?_, statedOr_pos params.KC positive.KC_pos, MR, NR⟩
          · unfold alignUnset mergeBlksz
            dsimp only
            split_ifs
            · exact roundUp_pos MR MC
            · exact MC
          · unfold alignUnset mergeBlksz
            dsimp only
            split_ifs
            · exact roundUp_pos NR NC
            · exact NC

theorem validated_blockParams {settled : DlpGemmCntx}
    {metadata : DlpMetadata} {params : DlpGemmBlocking}
    (stated : metadata.blockParams = some params)
    (validates :
      dlpGemmValidateMetadataWithLcntx settled (some metadata) = .ok ()) :
    validateBlockParams params settled.blksz = true := by
  dsimp only [dlpGemmValidateMetadataWithLcntx] at validates
  split at validates
  next accepted =>
      rw [stated, Bool.and_eq_true] at accepted
      exact accepted.1
  next => cases validates

theorem keepsStated_eq {stated : Int} {current : Nat}
    (positive : 0 < stated) (keeps : keepsStated stated current = true) :
    current = stated.toNat := by
  rw [keepsStated, if_pos positive, beq_iff_eq] at keeps
  omega

/--
The merged `KC` is the global one unless the caller stated it, and a stated
`KC` is the only one the validator accepts.
-/
theorem upd_KC {lcntx merged : DlpGemmCntx} {metadata : Option DlpMetadata}
    (merges : dlpGemmUpdCntxWithMetadata lcntx metadata = .ok merged) :
    merged.blksz.KC = lcntx.blksz.KC ∨
      ∀ settled : DlpGemmCntx,
        dlpGemmValidateMetadataWithLcntx settled metadata = .ok () →
          settled.blksz.KC = merged.blksz.KC := by
  cases metadata with
  | none =>
      cases merges
      exact Or.inl rfl
  | some metadata =>
      rcases bind_ok merges with ⟨blocked, blocks, rest⟩
      cases rest
      simp only [updGemmHints_blksz, updSupThresholds_blksz]
      cases stated : metadata.blockParams with
      | none =>
          rw [stated] at blocks
          cases blocks
          exact Or.inl rfl
      | some params =>
          rw [stated] at blocks
          rw [updBlockParams_KC blocks]
          by_cases positive : 0 < params.KC
          · refine Or.inr fun settled validates => ?_
            have keeps := validated_blockParams stated validates
            simp only [validateBlockParams, Bool.and_eq_true] at keeps
            rw [keepsStated_eq positive keeps.1.1.1.2]
            exact (if_pos positive).symm
          · exact Or.inl (if_neg positive)

/-! ## A tile left to the library -/

/-- The metadata states neither `MR` nor `NR`. -/
def DlpMetadata.LeavesTile (metadata : DlpMetadata) : Prop :=
  ∀ params, metadata.blockParams = some params →
    params.MR ≤ 0 ∧ params.NR ≤ 0

/-- The merge keeps the tile that it starts from. -/
structure KeepsTile (lcntx merged : DlpGemmCntx) : Prop where
  MR : merged.blksz.MR = lcntx.blksz.MR
  NR : merged.blksz.NR = lcntx.blksz.NR
  maskMR : merged.blkszSetMask.MR = lcntx.blkszSetMask.MR
  maskNR : merged.blkszSetMask.NR = lcntx.blkszSetMask.NR

theorem updBlockParams_keepsTile {lcntx merged : DlpGemmCntx}
    {params : Option DlpGemmBlocking}
    (maskMR : lcntx.blkszSetMask.MR = false)
    (maskNR : lcntx.blkszSetMask.NR = false)
    (free : ∀ stated, params = some stated → stated.MR ≤ 0 ∧ stated.NR ≤ 0)
    (merges : updBlockParams lcntx params = .ok merged) :
    KeepsTile lcntx merged := by
  cases params with
  | none =>
      cases merges
      exact ⟨rfl, rfl, rfl, rfl⟩
  | some stated =>
      rcases free stated rfl with ⟨rows, columns⟩
      dsimp only [updBlockParams] at merges
      split at merges
      · cases merges
      · cases merges
        exact ⟨if_neg (not_lt.mpr rows), if_neg (not_lt.mpr columns),
          (decide_eq_false (not_lt.mpr rows)).trans maskMR.symm,
          (decide_eq_false (not_lt.mpr columns)).trans maskNR.symm⟩

/-- Merging a metadata that leaves the tile to the library. -/
theorem upd_keepsTile {lcntx merged : DlpGemmCntx} {metadata : DlpMetadata}
    (maskMR : lcntx.blkszSetMask.MR = false)
    (maskNR : lcntx.blkszSetMask.NR = false) (free : metadata.LeavesTile)
    (merges : dlpGemmUpdCntxWithMetadata lcntx (some metadata) =
      .ok merged) :
    KeepsTile lcntx merged := by
  rcases bind_ok merges with ⟨blocked, blocks, rest⟩
  cases rest
  have kept := updBlockParams_keepsTile maskMR maskNR free blocks
  cases metadata.supThresholds <;> cases metadata.gemmHints <;>
    exact ⟨kept.MR, kept.NR, kept.maskMR, kept.maskNR⟩

/-- The block-size half of a merge records what the caller stated. -/
theorem updBlockParams_mask {lcntx merged : DlpGemmCntx}
    {params : Option DlpGemmBlocking}
    (fresh : lcntx.blkszSetMask = ⟨false, false, false, false, false⟩)
    (merges : updBlockParams lcntx params = .ok merged) :
    merged.blkszSetMask =
      dlpGemmBlkszProvenance (params.getD ⟨0, 0, 0, 0, 0⟩) := by
  cases params with
  | none =>
      cases merges
      exact fresh
  | some stated =>
      dsimp only [updBlockParams] at merges
      split at merges
      · cases merges
      · cases merges
        rfl

/-- A merge records which block sizes the caller stated. -/
theorem upd_mask {lcntx merged : DlpGemmCntx} {metadata : DlpMetadata}
    (fresh : lcntx.blkszSetMask = ⟨false, false, false, false, false⟩)
    (merges : dlpGemmUpdCntxWithMetadata lcntx (some metadata) =
      .ok merged) :
    merged.blkszSetMask = dlpGemmBlkszProvenance metadata.stated := by
  rcases bind_ok merges with ⟨blocked, blocks, rest⟩
  cases rest
  have mask := updBlockParams_mask fresh blocks
  cases metadata.supThresholds <;> cases metadata.gemmHints <;> exact mask

/-- A merge into a context without hints keeps the stated ones. -/
theorem upd_statedHints {lcntx merged : DlpGemmCntx}
    {metadata : DlpMetadata} (unset : lcntx.gemmKernelHints = ⟨0, 0⟩)
    (merges : dlpGemmUpdCntxWithMetadata lcntx (some metadata) =
      .ok merged) :
    merged.gemmKernelHints = metadata.statedHints := by
  rcases bind_ok merges with ⟨blocked, blocks, rest⟩
  cases rest
  have kept : blocked.gemmKernelHints = ⟨0, 0⟩ := by
    cases params : metadata.blockParams with
    | none =>
        rw [params] at blocks
        cases blocks
        exact unset
    | some stated =>
        rw [params] at blocks
        dsimp only [updBlockParams] at blocks
        split at blocks
        · cases blocks
        · cases blocks
          exact unset
  unfold DlpMetadata.statedHints
  cases metadata.supThresholds <;> cases metadata.gemmHints <;>
    first | exact kept | rfl

/-- Stated hints reach the context as they are. -/
theorem upd_hints {lcntx merged : DlpGemmCntx} {metadata : DlpMetadata}
    {hints : DlpGemmHints} (stated : metadata.gemmHints = some hints)
    (merges : dlpGemmUpdCntxWithMetadata lcntx (some metadata) =
      .ok merged) :
    merged.gemmKernelHints = hints := by
  rcases bind_ok merges with ⟨blocked, blocks, rest⟩
  cases rest
  rw [stated]
  rfl

end AoclDlp.Config.LocalContext
