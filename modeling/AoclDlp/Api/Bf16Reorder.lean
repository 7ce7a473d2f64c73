import AoclDlp.Api.ReorderSize
import AoclDlp.DecisionEngine.UnhintedPanel
import AoclDlp.Layout.TunedBf16

/-!
# What the BF16 reorder entry points accept

The size query, the tuned reorder and un-reorder and their two reference
twins each assemble their own sequence of checks, merge, pack-B init and
validation.  The query and the reference entries end with a test of the blocks
against the width and the depth of a packed tile; the tuned entries have no
such test, and the tuned reorder insists on a pack-B kernel instead.

An entry point that gets through its checks hands a local context to one of
two walks.  The model lists the elements of the packed buffer that a walk
touches, for every team that the runtime may deliver.

Block sizes and indices are naturals here and signed 64-bit in the source.
Both agree where no round-up of the merge and of the pack-B init leaves the
type (`checkedRoundUp_eq`) and the padded matrix has fewer than `2 ^ 62`
elements; the queried size is the 64-bit one of the query.
-/

namespace AoclDlp.Api.Bf16Reorder

open AoclDlp.Api.GemmCheck
open AoclDlp.Api.ReorderSize
open AoclDlp.Config.BlockSize
open AoclDlp.Config.LocalContext
open AoclDlp.DecisionEngine.KernelInit
open AoclDlp.DecisionEngine.PanelAgreement
open AoclDlp.DecisionEngine.UnhintedPanel (Undescribed panelNR_undescribed)
open AoclDlp.Foundations.Memory
open AoclDlp.Foundations.Rounding
open AoclDlp.Layout.Bf16Fallback
open AoclDlp.Layout.Chunk
open AoclDlp.Layout.Panel
open AoclDlp.Layout.ReorderRef
open AoclDlp.Layout.TeamTiles
open AoclDlp.Layout.TunedBf16
open AoclDlp.Quant.GroupSize
open AoclDlp.Quant.ShortTeam

/-! ## The entry points -/

/-- The library around a call: the decision engine with its generators, the
thresholds of the operation and the AVX2 test. -/
structure Library where
  engine : Engine
  supThres : DlpGemmSupThreshold
  avx2fma3 : Bool

namespace Library

/-- The processor that the entry points see. -/
def processor (library : Library) : Processor :=
  library.engine.machine.processor

/-- The surroundings of the size query. -/
def around (library : Library) : Around :=
  ⟨library.processor, library.supThres⟩

end Library

/-- `dlp_reorder_plain_strides`: `rs_b` and `cs_b` of the plain matrix. -/
def dlpReorderPlainStrides (args : ReorderArgs) : Int × Int :=
  if isRowMajor args.order then
    if isNoTrans args.trans then (args.ldb, 1) else (1, args.ldb)
  else if isNoTrans args.trans then (1, args.ldb) else (args.ldb, 1)

/-- The rule that only a B matrix is served. -/
def onlyB (args : ReorderArgs) : List Rule :=
  [⟨decide (dlpParamMapCharToLpmatType args.matType ≠ .bMatrix),
    .notSupported⟩]

/-- What an entry point that reports no error goes on to run. -/
inductive Worker where
  | vector
  | tuned (lcntx : DlpGemmCntx)
  | reference (lcntx : DlpGemmCntx)
  deriving DecidableEq, Repr

section EntryPoints

variable (library : Library) (args : ReorderArgs)
  (metadata : Option QuantMetadata)

/-- `aocl_reorder_bf16bf16f32of32_reference`. -/
def aoclReorderBf16bf16f32of32Reference : Except DlpClscErr Worker := do
  aoclDlpReorderCheck args
  runRules (onlyB args)
  if args.n = 1 then .ok .vector
  else do
    let lcntx ← referenceReorderCntx library.engine library.supThres
      args.n.toNat args.k.toNat (dlpReorderPlainStrides args).2.toNat
      (metadata.map QuantMetadata.cntx)
    .ok (.reference lcntx)

/-- `aocl_reorder_bf16bf16f32of32`. -/
def aoclReorderBf16bf16f32of32 : Except DlpClscErr Worker :=
  if library.processor.avx512bf16 = false then
    if library.avx2fma3 = false then .error .notSupported
    else aoclReorderBf16bf16f32of32Reference library args metadata
  else do
    aoclDlpReorderCheck args
    runRules
      [⟨decide (dlpParamMapCharToLpmatType args.matType = .aMatrix),
        .notSupported⟩]
    if library.processor.dlpGemmGetEnabledArch = .zen3 then
      aoclReorderBf16bf16f32of32Reference library args metadata
    else if args.n = 1 then .ok .vector
    else do
      let lcntx ← nativeReorderCntx library.engine .bf16 library.supThres
        args.n.toNat args.k.toNat (dlpReorderPlainStrides args).2.toNat
        (metadata.map QuantMetadata.cntx)
      .ok (.tuned lcntx)

/-- `AOCL_DLP_UNREORDER_CHECK`: the rules of the reorder check, with the
reordered buffer as the input. -/
def aoclDlpUnreorderCheck : Except DlpClscErr Unit :=
  runRules (reorderRules args)

/-- `aocl_unreorder_bf16bf16f32of32_reference`. -/
def aoclUnreorderBf16bf16f32of32Reference : Except DlpClscErr Worker := do
  aoclDlpUnreorderCheck args
  runRules (onlyB args)
  if args.n = 1 then .ok .vector
  else do
    let lcntx ← referenceReorderCntx library.engine library.supThres
      args.n.toNat args.k.toNat (dlpReorderPlainStrides args).2.toNat
      (metadata.map QuantMetadata.cntx)
    .ok (.reference lcntx)

/-- The context of the tuned un-reorder: no kernel and no test of the blocks
is asked for. -/
def tunedUnreorderCntx : Except DlpClscErr DlpGemmCntx := do
  let lcntx ← dlpGemmUpdCntxWithMetadata
    (globalCntx library.engine .bf16 library.supThres)
    (metadata.map QuantMetadata.cntx)
  dlpGemmValidateHints lcntx
  let lcntx := dlpInitAndGetPackbKernelHndl library.engine .bf16
    args.n.toNat args.k.toNat (dlpReorderPlainStrides args).2.toNat lcntx
  dlpGemmValidateMetadataWithLcntx lcntx (metadata.map QuantMetadata.cntx)
  .ok lcntx

/-- `aocl_unreorder_bf16bf16f32of32`. -/
def aoclUnreorderBf16bf16f32of32 : Except DlpClscErr Worker := do
  runRules [⟨!library.processor.avx512bf16, .notSupported⟩]
  aoclDlpUnreorderCheck args
  runRules (onlyB args)
  if args.n = 1 then .ok .vector
  else do
    let lcntx ← tunedUnreorderCntx library args metadata
    .ok (.tuned lcntx)

end EntryPoints

/-! ## The elements that a worker touches -/

/-- The elements that packing a tile writes: the fill, then the moves. -/
def packSlots (blocks : Blocks) (tile : Tile) : List Nat :=
  (List.range (dlpReorderPanelElems tile.nc0 tile.kc0 blocks.minNR
      blocks.kFactor) ++
    (panelMoves blocks tile.nc0 tile.kc0 0 0).map Prod.fst).map
      (tile.off + ·)

/-- The elements that unpacking a tile reads. -/
def unpackSlots (blocks : Blocks) (tile : Tile) : List Nat :=
  (panelMoves blocks tile.nc0 tile.kc0 0 0).map fun move =>
    tile.off + move.1

/-- The elements that the vector unpacker loads at a tile: whole pairs of
rows over the whole slot of each piece, with the padding in them. -/
def tunedUnpackSlots (tile : Tile) : List Nat :=
  (unpackPieces tile.nc0 (kcUpdated tile.kc0)).flatMap fun piece =>
    (List.range (kcUpdated tile.kc0)).flatMap fun kr =>
      (List.range piece.slot).map fun i =>
        tile.off +
          (piece.offset + dlpReorderElemOffset kr i piece.slot 2)

/-- The elements that a reorder writes when it asks for `ways` threads and
gets `team`. -/
def Worker.reorderSlots (worker : Worker) (n k ways team : Nat) :
    List Nat :=
  match worker with
  | .vector => List.range k
  | .tuned lcntx =>
      (tunedTiles lcntx.blksz n k ways team).flatMap
        (packSlots (bf16Blocks lcntx.blksz))
  | .reference lcntx =>
      (teamTiles (bf16Blocks lcntx.blksz) n k team).flatMap
        (packSlots (bf16Blocks lcntx.blksz))

/-- The elements that an un-reorder reads. -/
def Worker.unreorderSlots (worker : Worker) (n k ways team : Nat) :
    List Nat :=
  match worker with
  | .vector => List.range k
  | .tuned lcntx =>
      if lcntx.blksz.NR ≠ 64 then
        (teamTiles (bf16Blocks lcntx.blksz) n k team).flatMap
          (unpackSlots (bf16Blocks lcntx.blksz))
      else (tunedTiles lcntx.blksz n k ways team).flatMap tunedUnpackSlots
  | .reference lcntx =>
      (teamTiles (bf16Blocks lcntx.blksz) n k team).flatMap
        (unpackSlots (bf16Blocks lcntx.blksz))

/-! ## What fitting means -/

/-- The arguments of the size query for the same matrix. -/
def sizeArgs (args : ReorderArgs) : SizeArgs where
  order := args.order
  trans := args.trans
  matType := args.matType
  k := args.k
  n := args.n

/-- A call that goes on to its worker has a buffer size, and the worker stays
inside it under every team. -/
def FitsQueried (library : Library) (args : ReorderArgs)
    (metadata : Option QuantMetadata) (reply : Except DlpClscErr Worker)
    (slots : Worker → Nat → Nat → List Nat) : Prop :=
  ∀ worker, reply = .ok worker →
    ∃ size, aoclGetReorderBufSizeBf16bf16f32of32 library.around
        (sizeArgs args) metadata = .ok size ∧ size ≠ 0 ∧
      ∀ ways team, 0 < team → team ≤ ways →
        ∀ slot ∈ slots worker ways team, (slot : Int) < size / 2

/-- The call goes on to its worker. -/
def Proceeds (reply : Except DlpClscErr Worker) : Prop :=
  ∃ worker, reply = .ok worker

/-- The reorder and the un-reorder fit the size that was queried, and the
tuned entries accept what the reference entries accept. -/
structure FitsAndAgrees (library : Library) (args : ReorderArgs)
    (metadata : Option QuantMetadata) : Prop where
  reorder : FitsQueried library args metadata
    (aoclReorderBf16bf16f32of32 library args metadata)
    fun worker => worker.reorderSlots args.n.toNat args.k.toNat
  unreorder : FitsQueried library args metadata
    (aoclUnreorderBf16bf16f32of32 library args metadata)
    fun worker => worker.unreorderSlots args.n.toNat args.k.toNat
  sameReorder :
    Proceeds (aoclReorderBf16bf16f32of32 library args metadata) ↔
      Proceeds (aoclReorderBf16bf16f32of32Reference library args metadata)
  sameUnreorder :
    Proceeds (aoclUnreorderBf16bf16f32of32 library args metadata) ↔
      Proceeds (aoclUnreorderBf16bf16f32of32Reference library args metadata)

/-! ## The condition -/

/-- The metadata merges into the BF16 context and keeps what it states. -/
structure Merges (library : Library) (metadata : Option QuantMetadata)
    (merged : DlpGemmCntx) : Prop where
  updated : dlpGemmUpdCntxWithMetadata
      (globalCntx library.engine .bf16 library.supThres)
      (metadata.map QuantMetadata.cntx) = .ok merged
  validated : dlpGemmValidateMetadataWithLcntx merged
      (metadata.map QuantMetadata.cntx) = .ok ()

/-- The merged width and depth pass the test of the query. -/
def BlocksLegal (merged : DlpGemmCntx) : Prop :=
  dlpReorderRefBlocksLegal merged.blksz.NR
    dlpGetPackbBf16bf16f32of32MinNR merged.blksz.KC 2 = true

/-- The context of the call after its pack-B init. -/
def packInit (library : Library) (args : ReorderArgs)
    (merged : DlpGemmCntx) : DlpGemmCntx :=
  dlpInitAndGetPackbKernelHndl library.engine .bf16 args.n.toNat
    args.k.toNat (dlpReorderPlainStrides args).2.toNat merged

/-- A pack-B kernel exists for the merged context, or the reference takes the
call. -/
def Served (library : Library) (args : ReorderArgs)
    (merged : DlpGemmCntx) : Prop :=
  library.processor.dlpGemmGetEnabledArch = .zen3 ∨
    (packInit library args merged).hasPackBKernel = true

/-- The condition on an accepted call. -/
def Meets (library : Library) (args : ReorderArgs) (merged : DlpGemmCntx) :
    Prop :=
  match dlpParamMapCharToLpmatType args.matType with
  | .aMatrix => True
  | .bMatrix => BlocksLegal merged ∧ Served library args merged
  | .awqBMatrix =>
      library.processor.dlpGemmGetEnabledArch ≠ .zen3 →
        (packInit library args merged).hasPackBKernel = false

/-- The hints are unset. -/
def Unhinted (metadata : Option QuantMetadata) : Prop :=
  ∀ stated, metadata = some stated → stated.cntx.statedHints = ⟨0, 0⟩

/-! ## The merged context -/

section Merged

variable {library : Library} {args : ReorderArgs}
  {metadata : Option QuantMetadata} {merged : DlpGemmCntx}

theorem Merges.unique {other : DlpGemmCntx}
    (merges : Merges library metadata merged)
    (again : Merges library metadata other) : merged = other :=
  Except.ok.inj (merges.updated.symm.trans again.updated)

/-- The merged blocks are positive. -/
theorem updated_positive
    (updated : dlpGemmUpdCntxWithMetadata
      (globalCntx library.engine .bf16 library.supThres)
      (metadata.map QuantMetadata.cntx) = .ok merged) :
    PositiveBlocks merged.blksz :=
  upd_positive (blkszMap_positive _ _) updated

theorem updated_hints (unhinted : Unhinted metadata)
    (updated : dlpGemmUpdCntxWithMetadata
      (globalCntx library.engine .bf16 library.supThres)
      (metadata.map QuantMetadata.cntx) = .ok merged) :
    merged.gemmKernelHints = ⟨0, 0⟩ := by
  cases metadata with
  | none =>
      cases updated
      rfl
  | some stated =>
      rw [upd_statedHints rfl updated]
      exact unhinted stated rfl

/-- Unset hints pass their validation. -/
theorem validateHints_unset (unset : merged.gemmKernelHints = ⟨0, 0⟩) :
    dlpGemmValidateHints merged = .ok () := by
  unfold dlpGemmValidateHints
  rw [unset]
  rfl

/-- Under unset hints the pack-B init keeps the width of the context. -/
theorem packInit_blksz (unset : merged.gemmKernelHints = ⟨0, 0⟩) :
    (packInit library args merged).blksz = merged.blksz ∨
      (packInit library args merged).blksz =
        { merged.blksz with
          NC := roundUp merged.blksz.NC merged.blksz.NR } := by
  have absent : Undescribed merged := by
    unfold Undescribed
    rw [unset]
    exact Or.inl rfl
  have width := panelNR_undescribed absent library.engine.machine .bf16
    args.n.toNat args.k.toNat
  unfold packInit dlpInitAndGetPackbKernelHndl packBPanelDim
  rw [width]
  split_ifs
  · dsimp only
    split_ifs
    · exact Or.inl rfl
    · exact Or.inr rfl
  · exact Or.inl rfl

theorem packInit_supThres :
    (packInit library args merged).supThres = merged.supThres := by
  unfold packInit dlpInitAndGetPackbKernelHndl
  split
  · rfl
  · split <;> rfl

/-- The width and the depth that a walk takes from its context. -/
theorem packInit_NR (unset : merged.gemmKernelHints = ⟨0, 0⟩) :
    (packInit library args merged).blksz.NR = merged.blksz.NR := by
  rcases @packInit_blksz library args merged unset with kept | rounded
  · rw [kept]
  · rw [rounded]

theorem packInit_KC (unset : merged.gemmKernelHints = ⟨0, 0⟩) :
    (packInit library args merged).blksz.KC = merged.blksz.KC := by
  rcases @packInit_blksz library args merged unset with kept | rounded
  · rw [kept]
  · rw [rounded]

/-- An `NC` that the width divides survives the pack-B init. -/
theorem packInit_of_dvd (unset : merged.gemmKernelHints = ⟨0, 0⟩)
    (positive : 0 < merged.blksz.NR)
    (divides : merged.blksz.NR ∣ merged.blksz.NC) :
    (packInit library args merged).blksz = merged.blksz := by
  rcases @packInit_blksz library args merged unset with kept | rounded
  · exact kept
  · rw [rounded, roundUp_of_dvd positive divides]

/-- A stated `NC` survives rounding only when the width divides it. -/
theorem validateBlockParams_round {params : DlpGemmBlocking}
    {blksz : DlpGemmBlockSize} (positive : 0 < blksz.NR)
    (source : 0 < params.NC ∧ blksz.NC = params.NC.toNat ∨
      blksz.NR ∣ blksz.NC) :
    validateBlockParams params
        { blksz with NC := roundUp blksz.NC blksz.NR } =
      validateBlockParams params blksz := by
  by_cases divides : blksz.NR ∣ blksz.NC
  · rw [roundUp_of_dvd positive divides]
  · rcases source with ⟨stated, same⟩ | contra
    · have changed : roundUp blksz.NC blksz.NR ≠ blksz.NC := fun equal =>
        divides (equal ▸ dvd_roundUp blksz.NC blksz.NR)
      have refused : keepsStated params.NC (roundUp blksz.NC blksz.NR) =
          false := by
        rw [keepsStated, if_pos stated, beq_eq_false_iff_ne]
        omega
      have remainder : (blksz.NC % blksz.NR == 0) = false := by
        rw [beq_eq_false_iff_ne]
        exact fun zero => divides (Nat.dvd_of_mod_eq_zero zero)
      unfold validateBlockParams
      rw [remainder, refused]
      simp only [Bool.and_false, Bool.false_and]
    · exact absurd contra divides

/-- The merged `NC` is the stated one, or the width divides it. -/
theorem updated_NC {stated : QuantMetadata}
    (updated : dlpGemmUpdCntxWithMetadata
      (globalCntx library.engine .bf16 library.supThres)
      (some stated.cntx) = .ok merged) {params : DlpGemmBlocking}
    (given : stated.cntx.blockParams = some params) :
    0 < params.NC ∧ merged.blksz.NC = params.NC.toNat ∨
      merged.blksz.NR ∣ merged.blksz.NC := by
  rw [upd_blksz updated]
  unfold DlpMetadata.statedBlksz
  rw [given]
  change 0 < params.NC ∧ (if params.NC ≤ 0 then _ else statedOr _ _) = _ ∨
    _ ∣ (if params.NC ≤ 0 then _ else _)
  by_cases own : 0 < params.NC
  · left
    refine ⟨own, ?_⟩
    rw [if_neg (not_le.mpr own)]
    exact if_pos own
  · right
    rw [if_pos (not_lt.mp own)]
    exact dvd_roundUp _ _

/-- The validation after the pack-B init is the one before it. -/
theorem validate_packInit (unhinted : Unhinted metadata)
    (updated : dlpGemmUpdCntxWithMetadata
      (globalCntx library.engine .bf16 library.supThres)
      (metadata.map QuantMetadata.cntx) = .ok merged) :
    dlpGemmValidateMetadataWithLcntx (packInit library args merged)
        (metadata.map QuantMetadata.cntx) =
      dlpGemmValidateMetadataWithLcntx merged
        (metadata.map QuantMetadata.cntx) := by
  have unset := updated_hints unhinted updated
  have positive := (updated_positive updated).NR_pos
  cases metadata with
  | none => rfl
  | some stated =>
      have blocks : (stated.cntx.blockParams.all
            (validateBlockParams · (packInit library args merged).blksz)) =
          stated.cntx.blockParams.all
            (validateBlockParams · merged.blksz) := by
        rcases @packInit_blksz library args merged unset with kept | rounded
        · rw [kept]
        · cases given : stated.cntx.blockParams with
          | none => rfl
          | some params =>
              have source := updated_NC updated given
              rw [rounded, Option.all_some, Option.all_some]
              exact validateBlockParams_round positive source
      change (if (_ && stated.cntx.supThresholds.all
          (validateSupThresholds · (packInit library args merged).supThres))
        then _ else _) = (if (_ && _) then _ else _)
      rw [blocks, packInit_supThres]

theorem merges_of_packInit (unhinted : Unhinted metadata)
    (updated : dlpGemmUpdCntxWithMetadata
      (globalCntx library.engine .bf16 library.supThres)
      (metadata.map QuantMetadata.cntx) = .ok merged)
    (validated : dlpGemmValidateMetadataWithLcntx
      (packInit library args merged) (metadata.map QuantMetadata.cntx) =
        .ok ()) : Merges library metadata merged := by
  rw [validate_packInit unhinted updated] at validated
  exact ⟨updated, validated⟩

theorem Merges.packInit_valid (unhinted : Unhinted metadata)
    (merges : Merges library metadata merged) :
    dlpGemmValidateMetadataWithLcntx (packInit library args merged)
      (metadata.map QuantMetadata.cntx) = .ok () := by
  rw [validate_packInit unhinted merges.updated]
  exact merges.validated

/-- The width of accepted blocks divides their `NC`. -/
theorem Merges.dvd (merges : Merges library metadata merged) :
    merged.blksz.NR ∣ merged.blksz.NC := by
  have updated := merges.updated
  have validated := merges.validated
  cases metadata with
  | none =>
      cases updated
      change (dlpGemmCntxInitBlkszMap _ .bf16bf16f32of32).NR ∣
        (dlpGemmCntxInitBlkszMap _ .bf16bf16f32of32).NC
      rw [bf16_blksz]
      decide
  | some stated =>
      cases given : stated.cntx.blockParams with
      | none =>
          rw [upd_blksz updated]
          unfold DlpMetadata.statedBlksz
          rw [given]
          change (dlpGemmCntxInitBlkszMap _ .bf16bf16f32of32).NR ∣
            (dlpGemmCntxInitBlkszMap _ .bf16bf16f32of32).NC
          rw [bf16_blksz]
          decide
      | some params =>
          have valid := validated_blockParams given validated
          simp only [validateBlockParams, Bool.and_eq_true,
            beq_iff_eq] at valid
          exact Nat.dvd_of_mod_eq_zero valid.2

/-- Accepted blocks pass the pack-B init unchanged. -/
theorem Merges.packInit_blksz (unhinted : Unhinted metadata)
    (merges : Merges library metadata merged) :
    (packInit library args merged).blksz = merged.blksz :=
  packInit_of_dvd (updated_hints unhinted merges.updated)
    (updated_positive merges.updated).NR_pos merges.dvd

/-- Accepted blocks with the width and the depth of the query are legal. -/
theorem Merges.legal (merges : Merges library metadata merged)
    (blocks : BlocksLegal merged) : (bf16Blocks merged.blksz).Legal :=
  Blocks.legal_of_accepted blocks (updated_positive merges.updated).NC_pos
    merges.dvd

end Merged

/-! ## Who proceeds -/

section Replies

variable {library : Library} {args : ReorderArgs}
  {metadata : Option QuantMetadata}

/-- The reference context: the merged one, when its blocks are legal. -/
theorem referenceCntx_ok_iff (unhinted : Unhinted metadata)
    {lcntx : DlpGemmCntx} :
    referenceReorderCntx library.engine library.supThres args.n.toNat
        args.k.toNat (dlpReorderPlainStrides args).2.toNat
        (metadata.map QuantMetadata.cntx) = .ok lcntx ↔
      ∃ merged, Merges library metadata merged ∧ BlocksLegal merged ∧
        lcntx = packInit library args merged := by
  unfold referenceReorderCntx
  constructor
  · intro succeeds
    rcases bind_ok succeeds with ⟨merged, updated, succeeds⟩
    rcases bind_ok succeeds with ⟨_, -, succeeds⟩
    rcases bind_ok succeeds with ⟨_, validated, succeeds⟩
    have merges := merges_of_packInit unhinted updated validated
    change (if dlpReorderRefBlocksLegal
      (packInit library args merged).blksz.NR _
      (packInit library args merged).blksz.KC 2 then
        Except.ok (packInit library args merged) else _) = _ at succeeds
    have unset := updated_hints unhinted updated
    rw [packInit_NR unset, packInit_KC unset] at succeeds
    split at succeeds
    next legal =>
      exact ⟨merged, merges, legal,
        (Except.ok.inj succeeds).symm⟩
    next => cases succeeds
  · rintro ⟨merged, merges, legal, rfl⟩
    have unset := updated_hints unhinted merges.updated
    have validated := @Merges.packInit_valid library args metadata merged
      unhinted merges
    rw [merges.updated]
    change (dlpGemmValidateHints merged >>= fun _ =>
      dlpGemmValidateMetadataWithLcntx (packInit library args merged) _ >>=
        fun _ => if dlpReorderRefBlocksLegal
          (packInit library args merged).blksz.NR _
          (packInit library args merged).blksz.KC 2 then
            Except.ok (packInit library args merged) else _) = _
    rw [validateHints_unset unset, validated, packInit_NR unset,
      packInit_KC unset]
    exact if_pos legal

/-- The tuned reorder's context: the merged one, when it has a kernel. -/
theorem nativeCntx_ok_iff (unhinted : Unhinted metadata)
    {lcntx : DlpGemmCntx} :
    nativeReorderCntx library.engine .bf16 library.supThres args.n.toNat
        args.k.toNat (dlpReorderPlainStrides args).2.toNat
        (metadata.map QuantMetadata.cntx) = .ok lcntx ↔
      ∃ merged, Merges library metadata merged ∧
        (packInit library args merged).hasPackBKernel = true ∧
        lcntx = packInit library args merged := by
  unfold nativeReorderCntx
  constructor
  · intro succeeds
    rcases bind_ok succeeds with ⟨merged, updated, succeeds⟩
    rcases bind_ok succeeds with ⟨_, -, succeeds⟩
    change (if (packInit library args merged).hasPackBKernel then _
      else _) = _ at succeeds
    split at succeeds
    next kernel =>
      rcases bind_ok succeeds with ⟨_, validated, succeeds⟩
      have merges := merges_of_packInit unhinted updated validated
      exact ⟨merged, merges, kernel,
        (Except.ok.inj succeeds).symm⟩
    next => cases succeeds
  · rintro ⟨merged, merges, kernel, rfl⟩
    have unset := updated_hints unhinted merges.updated
    have validated := @Merges.packInit_valid library args metadata merged
      unhinted merges
    rw [merges.updated]
    change (dlpGemmValidateHints merged >>= fun _ =>
      if (packInit library args merged).hasPackBKernel then
        dlpGemmValidateMetadataWithLcntx (packInit library args merged) _ >>=
          fun _ => Except.ok (packInit library args merged)
      else _) = _
    rw [validateHints_unset unset, kernel, validated]
    rfl

/-- The tuned un-reorder's context: the merged one. -/
theorem tunedUnreorderCntx_ok_iff (unhinted : Unhinted metadata)
    {lcntx : DlpGemmCntx} :
    tunedUnreorderCntx library args metadata = .ok lcntx ↔
      ∃ merged, Merges library metadata merged ∧
        lcntx = packInit library args merged := by
  unfold tunedUnreorderCntx
  constructor
  · intro succeeds
    rcases bind_ok succeeds with ⟨merged, updated, succeeds⟩
    rcases bind_ok succeeds with ⟨_, -, succeeds⟩
    rcases bind_ok succeeds with ⟨_, validated, succeeds⟩
    have merges := merges_of_packInit unhinted updated validated
    exact ⟨merged, merges, (Except.ok.inj succeeds).symm⟩
  · rintro ⟨merged, merges, rfl⟩
    have unset := updated_hints unhinted merges.updated
    have validated := @Merges.packInit_valid library args metadata merged
      unhinted merges
    rw [merges.updated]
    change (dlpGemmValidateHints merged >>= fun _ =>
      dlpGemmValidateMetadataWithLcntx (packInit library args merged) _ >>=
        fun _ => Except.ok (packInit library args merged)) = _
    rw [validateHints_unset unset, validated]
    rfl

theorem single_rule_iff (rejects : Bool) (code : DlpClscErr) :
    runRules [⟨rejects, code⟩] = .ok () ↔ rejects = false := by
  rw [runRules_ok_iff]
  simp

/-- The reference reorder goes on with legal blocks of a B matrix. -/
theorem reference_ok_iff (unhinted : Unhinted metadata)
    (columns : args.n ≠ 1) {worker : Worker} :
    aoclReorderBf16bf16f32of32Reference library args metadata =
        .ok worker ↔
      aoclDlpReorderCheck args = .ok () ∧
        dlpParamMapCharToLpmatType args.matType = .bMatrix ∧
        ∃ merged, Merges library metadata merged ∧ BlocksLegal merged ∧
          worker = .reference (packInit library args merged) := by
  unfold aoclReorderBf16bf16f32of32Reference onlyB
  constructor
  · intro succeeds
    rcases bind_ok succeeds with ⟨_, checked, succeeds⟩
    rcases bind_ok succeeds with ⟨_, served, succeeds⟩
    rw [single_rule_iff, decide_eq_false_iff_not, not_not] at served
    rw [if_neg columns] at succeeds
    rcases bind_ok succeeds with ⟨lcntx, context, succeeds⟩
    rcases (referenceCntx_ok_iff unhinted).mp context with
      ⟨merged, merges, legal, rfl⟩
    exact ⟨checked, served, merged, merges, legal,
      (Except.ok.inj succeeds).symm⟩
  · rintro ⟨checked, served, merged, merges, legal, rfl⟩
    have context := (@referenceCntx_ok_iff library args metadata unhinted
      _).mpr ⟨merged, merges, legal, rfl⟩
    rw [checked, served, if_neg columns, context]
    rfl

/-- The tuned reorder goes on under its pack-B kernel, or as the
reference. -/
theorem tuned_ok_iff (unhinted : Unhinted metadata)
    (native : library.processor.avx512bf16 = true) (columns : args.n ≠ 1)
    {worker : Worker} :
    aoclReorderBf16bf16f32of32 library args metadata = .ok worker ↔
      aoclDlpReorderCheck args = .ok () ∧
        dlpParamMapCharToLpmatType args.matType ≠ .aMatrix ∧
        if library.processor.dlpGemmGetEnabledArch = .zen3 then
          aoclReorderBf16bf16f32of32Reference library args metadata =
            .ok worker
        else
          ∃ merged, Merges library metadata merged ∧
            (packInit library args merged).hasPackBKernel = true ∧
            worker = .tuned (packInit library args merged) := by
  unfold aoclReorderBf16bf16f32of32
  rw [if_neg (by rw [native]; decide)]
  constructor
  · intro succeeds
    rcases bind_ok succeeds with ⟨_, checked, succeeds⟩
    rcases bind_ok succeeds with ⟨_, served, succeeds⟩
    rw [single_rule_iff, decide_eq_false_iff_not] at served
    refine ⟨checked, served, ?_⟩
    by_cases lowered : library.processor.dlpGemmGetEnabledArch = .zen3
    · rw [if_pos lowered] at succeeds ⊢
      exact succeeds
    · rw [if_neg lowered, if_neg columns] at succeeds
      rw [if_neg lowered]
      rcases bind_ok succeeds with ⟨lcntx, context, succeeds⟩
      rcases (nativeCntx_ok_iff unhinted).mp context with
        ⟨merged, merges, kernel, rfl⟩
      exact ⟨merged, merges, kernel, (Except.ok.inj succeeds).symm⟩
  · rintro ⟨checked, served, rest⟩
    have passes := (single_rule_iff
      (decide (dlpParamMapCharToLpmatType args.matType = .aMatrix))
      .notSupported).mpr (decide_eq_false served)
    rw [checked, passes]
    change (if _ then _ else if _ then _ else _) = _
    by_cases lowered : library.processor.dlpGemmGetEnabledArch = .zen3
    · rw [if_pos lowered] at rest ⊢
      exact rest
    · rw [if_neg lowered] at rest
      rcases rest with ⟨merged, merges, kernel, rfl⟩
      have context := (@nativeCntx_ok_iff library args metadata unhinted
        _).mpr ⟨merged, merges, kernel, rfl⟩
      rw [if_neg lowered, if_neg columns, context]
      rfl

/-- The tuned un-reorder goes on with any accepted blocks of a B matrix. -/
theorem tunedUnreorder_ok_iff (unhinted : Unhinted metadata)
    (native : library.processor.avx512bf16 = true) (columns : args.n ≠ 1)
    {worker : Worker} :
    aoclUnreorderBf16bf16f32of32 library args metadata = .ok worker ↔
      aoclDlpReorderCheck args = .ok () ∧
        dlpParamMapCharToLpmatType args.matType = .bMatrix ∧
        ∃ merged, Merges library metadata merged ∧
          worker = .tuned (packInit library args merged) := by
  unfold aoclUnreorderBf16bf16f32of32 onlyB
  rw [native]
  constructor
  · intro succeeds
    rcases bind_ok succeeds with ⟨_, -, succeeds⟩
    rcases bind_ok succeeds with ⟨_, checked, succeeds⟩
    rcases bind_ok succeeds with ⟨_, served, succeeds⟩
    rw [single_rule_iff, decide_eq_false_iff_not, not_not] at served
    rw [if_neg columns] at succeeds
    rcases bind_ok succeeds with ⟨lcntx, context, succeeds⟩
    rcases (tunedUnreorderCntx_ok_iff unhinted).mp context with
      ⟨merged, merges, rfl⟩
    exact ⟨checked, served, merged, merges, (Except.ok.inj succeeds).symm⟩
  · rintro ⟨checked, served, merged, merges, rfl⟩
    have context := (@tunedUnreorderCntx_ok_iff library args metadata
      unhinted _).mpr ⟨merged, merges, rfl⟩
    have passes : aoclDlpUnreorderCheck args = .ok () := checked
    rw [passes, served, if_neg columns, context]
    rfl

/-- The reference un-reorder makes the checks of the reference reorder. -/
theorem referenceUnreorder_eq :
    aoclUnreorderBf16bf16f32of32Reference library args metadata =
      aoclReorderBf16bf16f32of32Reference library args metadata :=
  rfl

/-- Dimensions that the reorder check lets through. -/
theorem sized_of_check (checked : aoclDlpReorderCheck args = .ok ()) :
    runRules (sizeRules (sizeArgs args)) = .ok () := by
  have rules := (runRules_ok_iff _).mp checked
  rw [runRules_ok_iff]
  simp only [reorderRules, List.forall_mem_cons] at rules
  simp only [sizeRules, List.forall_mem_cons]
  rcases rules with ⟨order, trans, kind, -, -, k, n, -⟩
  exact ⟨order, trans, kind, k, n, fun _ absent => absurd absent (by simp)⟩

/-- The query succeeds on legal blocks of a checked B matrix. -/
theorem query_ok (checked : aoclDlpReorderCheck args = .ok ())
    (served : dlpParamMapCharToLpmatType args.matType = .bMatrix)
    {merged : DlpGemmCntx} (merges : Merges library metadata merged)
    (legal : BlocksLegal merged) :
    aoclGetReorderBufSizeBf16bf16f32of32 library.around (sizeArgs args)
        metadata =
      .ok ((bf16Parts args.n.toNat args.k.toNat).bytes : Int) := by
  have sized := sized_of_check checked
  rcases accepted_of_check sized with ⟨n, k, columns, rows, nOk, kOk⟩
  have context : queryCntx library.around .bf16bf16f32of32
      dlpGetPackbBf16bf16f32of32MinNR 2 metadata = .ok merged := by
    have updated := merges.updated
    change dlpGemmUpdCntxWithMetadata
      (dlpGemmGetGlobalCntxObj library.around.processor
        library.around.supThres .bf16bf16f32of32) _ = _ at updated
    unfold queryCntx
    rw [updated]
    change (dlpGemmValidateMetadataWithLcntx merged _ >>= fun _ =>
      if dlpReorderRefBlocksLegal merged.blksz.NR _ merged.blksz.KC 2 then
        Except.ok merged else _) = _
    rw [merges.validated]
    exact if_pos legal
  have size := bf16_size nOk kOk
  change args.n = n at columns
  change args.k = k at rows
  unfold aoclGetReorderBufSizeBf16bf16f32of32
  rw [sized, context]
  change (runRules [⟨decide (dlpParamMapCharToLpmatType args.matType ≠
    .bMatrix), .notSupported⟩] >>= fun _ =>
      sizeOr (dlpReorderSizeBytes (bf16Extents args.n args.k).1
        (bf16Extents args.n args.k).2 2 0)) = _
  rw [served, columns, rows, size]
  rfl

/-- A query that succeeds saw legal blocks of a B matrix. -/
theorem of_query_ok {size : Int}
    (succeeds : aoclGetReorderBufSizeBf16bf16f32of32 library.around
      (sizeArgs args) metadata = .ok size) :
    dlpParamMapCharToLpmatType args.matType = .bMatrix ∧
      ∃ merged, Merges library metadata merged ∧ BlocksLegal merged := by
  unfold aoclGetReorderBufSizeBf16bf16f32of32 at succeeds
  rcases bind_ok succeeds with ⟨_, -, succeeds⟩
  rcases bind_ok succeeds with ⟨_, served, succeeds⟩
  rcases bind_ok succeeds with ⟨_, context, -⟩
  rw [single_rule_iff, decide_eq_false_iff_not, not_not] at served
  refine ⟨served, ?_⟩
  rcases bind_ok context with ⟨merged, updated, context⟩
  rcases bind_ok context with ⟨_, validated, context⟩
  split at context
  next legal => exact ⟨merged, ⟨updated, validated⟩, legal⟩
  next => cases context

end Replies

/-! ## The elements stay inside the image -/

section Slots

variable {blksz : DlpGemmBlockSize} {n k : Nat}

/-- A packed move lies in the region of its tile. -/
theorem region_of_move (legal : (bf16Blocks blksz).Legal) {tile : Tile}
    {move : Nat × Nat}
    (member : move ∈ panelMoves (bf16Blocks blksz) tile.nc0 tile.kc0 0 0) :
    Region (bf16Blocks blksz) tile (tile.off + move.1) := by
  rcases (mem_panelMoves_iff legal).mp member with
    ⟨kr, col, row, column, rfl⟩
  exact ⟨Nat.le_add_right _ _,
    Nat.add_lt_add_left (elem_lt_panelElems legal row column) _⟩

theorem packSlots_region (legal : (bf16Blocks blksz).Legal) {tile : Tile}
    {slot : Nat} (member : slot ∈ packSlots (bf16Blocks blksz) tile) :
    Region (bf16Blocks blksz) tile slot := by
  rcases List.mem_map.mp member with ⟨inner, touched, rfl⟩
  rcases List.mem_append.mp touched with filled | moved
  · exact ⟨Nat.le_add_right _ _,
      Nat.add_lt_add_left (List.mem_range.mp filled) _⟩
  · rcases List.mem_map.mp moved with ⟨move, inPanel, rfl⟩
    exact region_of_move legal inPanel

theorem unpackSlots_region (legal : (bf16Blocks blksz).Legal) {tile : Tile}
    {slot : Nat} (member : slot ∈ unpackSlots (bf16Blocks blksz) tile) :
    Region (bf16Blocks blksz) tile slot := by
  rcases List.mem_map.mp member with ⟨move, inPanel, rfl⟩
  exact region_of_move legal inPanel

/-- The widths of the vector unpacker. -/
theorem tunedWidths : Widths 64 16 :=
  ⟨by decide, by decide, by decide⟩

/-- At its own width the vector unpacker loads what the reference reads. -/
theorem mem_tunedUnpackSlots (native : blksz.NR = 64) {tile : Tile}
    {slot : Nat} (member : slot ∈ unpackSlots (bf16Blocks blksz) tile) :
    slot ∈ tunedUnpackSlots tile := by
  rcases List.mem_map.mp member with ⟨move, inPanel, rfl⟩
  rcases List.mem_flatMap.mp inPanel with ⟨chunk, visited, inRows⟩
  rcases List.mem_flatMap.mp inRows with ⟨kr, row, inColumns⟩
  rcases List.mem_map.mp inColumns with ⟨i, column, rfl⟩
  simp only [bf16Blocks, native, dlpGetPackbBf16bf16f32of32MinNR] at visited
  unfold tunedUnpackSlots
  rw [unpackPieces_eq, kcUpdated_eq]
  have cols := (panelChunks_isChunk tunedWidths visited).cols_le tunedWidths
  have height : tile.kc0 ≤ dlpReorderRoundUp tile.kc0 2 := by
    rw [dlpReorderRoundUp_eq (by decide)]
    exact le_roundUp (by decide) _
  exact List.mem_flatMap.mpr ⟨chunk, visited, List.mem_flatMap.mpr ⟨kr,
    List.mem_range.mpr ((List.mem_range.mp row).trans_le height),
    List.mem_map.mpr ⟨i,
      List.mem_range.mpr ((List.mem_range.mp column).trans_le cols), rfl⟩⟩⟩

/-- The loads of the vector unpacker stay in the region of their tile. -/
theorem tunedUnpackSlots_region {tile : Tile} {slot : Nat}
    (member : slot ∈ tunedUnpackSlots tile) :
    Region (bf16Blocks blksz) tile slot := by
  unfold tunedUnpackSlots at member
  rw [unpackPieces_eq, kcUpdated_eq] at member
  rcases List.mem_flatMap.mp member with ⟨chunk, visited, inRows⟩
  rcases List.mem_flatMap.mp inRows with ⟨kr, row, inColumns⟩
  rcases List.mem_map.mp inColumns with ⟨i, column, rfl⟩
  have isChunk := panelChunks_isChunk tunedWidths visited
  have padded := isChunk.slot_end_le tunedWidths
  rw [dlpReorderRoundUp_eq (by decide)] at row isChunk
  have low := elemOffset_lt (show 0 < 2 by decide) (dvd_roundUp tile.kc0 2)
    (List.mem_range.mp row) (List.mem_range.mp column)
  refine ⟨Nat.le_add_right _ _, Nat.add_lt_add_left ?_ _⟩
  change _ < dlpReorderPanelElems tile.nc0 tile.kc0 16 2
  rw [dlpReorderPanelElems, dlpReorderRoundUp_eq (by decide),
    dlpReorderRoundUp_eq (by decide), isChunk.offset]
  calc
    chunk.colStart * roundUp tile.kc0 2 +
          dlpReorderElemOffset kr i chunk.slot 2 <
        chunk.colStart * roundUp tile.kc0 2 +
          chunk.slot * roundUp tile.kc0 2 := Nat.add_lt_add_left low _
    _ = (chunk.colStart + chunk.slot) * roundUp tile.kc0 2 := by ring
    _ ≤ roundUp tile.nc0 16 * roundUp tile.kc0 2 :=
      Nat.mul_le_mul_right _ padded

/-- The tiles of a walk have their regions inside the image. -/
theorem teamTiles_region_lt (legal : (bf16Blocks blksz).Legal)
    {team slot : Nat} {tile : Tile}
    (member : tile ∈ teamTiles (bf16Blocks blksz) n k team)
    (inside : Region (bf16Blocks blksz) tile slot) :
    slot < roundUp n 16 * roundUp k 2 :=
  region_lt (teamTiles_placed legal member) inside

theorem tunedTiles_region_lt (legal : (bf16Blocks blksz).Legal)
    {ways team slot : Nat} (atMost : team ≤ ways) {tile : Tile}
    (member : tile ∈ tunedTiles blksz n k ways team)
    (inside : Region (bf16Blocks blksz) tile slot) :
    slot < roundUp n 16 * roundUp k 2 := by
  rw [tunedTiles_eq] at member
  exact teamTiles_region_lt legal (deliveredTiles_mem atMost member) inside

/-- The blocks under which a worker walks a matrix of several columns. -/
def Worker.context : Worker → Option DlpGemmBlockSize
  | .vector => none
  | .tuned lcntx => some lcntx.blksz
  | .reference lcntx => some lcntx.blksz

theorem reorderSlots_lt {worker : Worker} (runs : worker.context = some blksz)
    (legal : (bf16Blocks blksz).Legal) {ways team : Nat}
    (atMost : team ≤ ways) {slot : Nat}
    (member : slot ∈ worker.reorderSlots n k ways team) :
    slot < roundUp n 16 * roundUp k 2 := by
  cases worker with
  | vector => cases runs
  | tuned lcntx =>
      cases runs
      rcases List.mem_flatMap.mp member with ⟨tile, inTiles, touched⟩
      exact tunedTiles_region_lt legal atMost inTiles
        (packSlots_region legal touched)
  | reference lcntx =>
      cases runs
      rcases List.mem_flatMap.mp member with ⟨tile, inTiles, touched⟩
      exact teamTiles_region_lt legal inTiles
        (packSlots_region legal touched)

theorem unreorderSlots_lt {worker : Worker}
    (runs : worker.context = some blksz)
    (legal : (bf16Blocks blksz).Legal) {ways team : Nat}
    (atMost : team ≤ ways) {slot : Nat}
    (member : slot ∈ worker.unreorderSlots n k ways team) :
    slot < roundUp n 16 * roundUp k 2 := by
  cases worker with
  | vector => cases runs
  | tuned lcntx =>
      cases runs
      by_cases native : lcntx.blksz.NR = 64
      · have tuned : slot ∈ (tunedTiles lcntx.blksz n k ways team).flatMap
            tunedUnpackSlots := by
          unfold Worker.unreorderSlots at member
          dsimp only at member
          rw [if_neg (not_not.mpr native)] at member
          exact member
        rcases List.mem_flatMap.mp tuned with ⟨tile, inTiles, touched⟩
        exact tunedTiles_region_lt legal atMost inTiles
          (tunedUnpackSlots_region touched)
      · have handed : slot ∈ (teamTiles (bf16Blocks lcntx.blksz) n k
            team).flatMap (unpackSlots (bf16Blocks lcntx.blksz)) := by
          unfold Worker.unreorderSlots at member
          dsimp only at member
          rw [if_pos native] at member
          exact member
        rcases List.mem_flatMap.mp handed with ⟨tile, inTiles, touched⟩
        exact teamTiles_region_lt legal inTiles
          (unpackSlots_region legal touched)
  | reference lcntx =>
      cases runs
      rcases List.mem_flatMap.mp member with ⟨tile, inTiles, touched⟩
      exact teamTiles_region_lt legal inTiles
        (unpackSlots_region legal touched)

/-- A slot of the image lies below half of the bytes. -/
theorem lt_half_bytes (several : n ≠ 1) {slot : Nat}
    (below : slot < roundUp n 16 * roundUp k 2) :
    (slot : Int) < ((bf16Parts n k).bytes : Int) / 2 := by
  unfold bf16Parts BufferParts.bytes
  rw [if_neg several]
  dsimp only
  omega

end Slots

/-! ## The lists name what the walks touch -/

section Touched

variable {blksz : DlpGemmBlockSize} {n k rsB csB : Nat}

/-- A move of a tile in the terms of its panel. -/
theorem tileMoves_fst (tile : Tile) :
    (tileMoves (bf16Blocks blksz) (bf16Shape n k rsB csB) tile).map
        Prod.fst =
      unpackSlots (bf16Blocks blksz) tile := by
  unfold tileMoves unpackSlots panelMoves
  simp only [List.map_map, List.map_flatMap, Function.comp_def]

/-- Packing changes no element that is not listed. -/
theorem packTiles_unlisted (unpacked packed : Bytes) (tiles : List Tile)
    {address : Nat}
    (unlisted : address / 2 ∉
      tiles.flatMap (packSlots (bf16Blocks blksz))) :
    packTiles (bf16Blocks blksz) (bf16Shape n k rsB csB) unpacked tiles
      packed address = packed address := by
  induction tiles generalizing packed with
  | nil => rfl
  | cons tile rest ih =>
      rw [List.flatMap_cons, List.mem_append, not_or] at unlisted
      have tail := ih (packTile (bf16Blocks blksz)
        (bf16Shape n k rsB csB) unpacked tile packed) unlisted.2
      refine tail.trans ?_
      rw [packTile_eq_copyElems, copyElems_frame elemSz_pos]
      · apply fill_outside
        intro inside
        have region := (@byte_region_iff (bf16Blocks blksz)
          (bf16Shape n k rsB csB) tile elemSz_pos address).mp inside
        apply unlisted.1
        refine List.mem_map.mpr ⟨address / 2 - tile.off,
          List.mem_append_left _ (List.mem_range.mpr ?_), ?_⟩
        · exact (Nat.sub_lt_iff_lt_add' region.1).mpr region.2
        · exact Nat.add_sub_of_le region.1
      · intro move member same
        apply unlisted.1
        have listed : move.1 ∈ unpackSlots (bf16Blocks blksz) tile := by
          rw [← @tileMoves_fst blksz n k rsB csB]
          exact List.mem_map_of_mem member
        rcases List.mem_map.mp listed with ⟨inner, inPanel, reached⟩
        refine List.mem_map.mpr ⟨inner.1, List.mem_append_right _
          (List.mem_map_of_mem inPanel), reached.trans same⟩

/-- Unpacking depends on no element that is not listed. -/
theorem unpackTiles_listed {packed other : Bytes} (tiles : List Tile)
    (same : ∀ slot ∈ tiles.flatMap (unpackSlots (bf16Blocks blksz)),
      ∀ byte, byte < 2 → packed (slot * 2 + byte) = other (slot * 2 + byte))
    (out : Bytes) :
    tiles.foldl (fun current tile => unpackTile (bf16Blocks blksz)
        (bf16Shape n k rsB csB) packed tile current) out =
      tiles.foldl (fun current tile => unpackTile (bf16Blocks blksz)
        (bf16Shape n k rsB csB) other tile current) out := by
  induction tiles generalizing out with
  | nil => rfl
  | cons tile rest ih =>
      have head : unpackTile (bf16Blocks blksz) (bf16Shape n k rsB csB)
          packed tile out =
            unpackTile (bf16Blocks blksz) (bf16Shape n k rsB csB) other tile
              out := by
        rw [unpackTile_eq_copyElems, unpackTile_eq_copyElems]
        apply copyElems_congr_source
        intro move member byte inside
        rcases List.mem_map.mp member with ⟨source, inTile, rfl⟩
        apply same _ _ byte inside
        rw [List.flatMap_cons, ← @tileMoves_fst blksz n k rsB csB]
        exact List.mem_append_left _ (List.mem_map_of_mem inTile)
      rw [List.foldl_cons, List.foldl_cons, head]
      exact ih (fun slot member => same slot (by
        rw [List.flatMap_cons]
        exact List.mem_append_right _ member)) _

variable {ways team : Nat} {lcntx : DlpGemmCntx}

/-- The tuned reorder writes the listed elements only. -/
theorem tunedReorderb_unlisted
    (walk : TunedOrder lcntx.blksz n k ways team) (unpacked packed : Bytes)
    {address : Nat}
    (unlisted : address / 2 ∉
      (Worker.tuned lcntx).reorderSlots n k ways team) :
    tunedReorderb rsB csB walk unpacked packed address =
      packed address := by
  refine @packTiles_unlisted lcntx.blksz n k rsB csB unpacked packed
    walk.order address ?_
  intro listed
  rcases List.mem_flatMap.mp listed with ⟨tile, inOrder, touched⟩
  exact unlisted (List.mem_flatMap.mpr
    ⟨tile, walk.perm.mem_iff.mp inOrder, touched⟩)

/-- The tuned un-reorder reads the listed elements only. -/
theorem tunedUnreorderb_listed (rows : 2 ≤ k)
    (strided : Strided n k rsB csB)
    (walk : UnreorderWalk lcntx.blksz n k rsB csB ways team)
    {packed other : Bytes}
    (same : ∀ slot ∈ (Worker.tuned lcntx).unreorderSlots n k ways team,
      ∀ byte, byte < 2 → packed (slot * 2 + byte) = other (slot * 2 + byte))
    (out : Bytes) :
    tunedUnreorderb walk packed out = tunedUnreorderb walk other out := by
  unfold Worker.unreorderSlots at same
  dsimp only at same
  unfold tunedUnreorderb
  by_cases native : lcntx.blksz.NR = 64
  · rw [if_neg (not_not.mpr native)] at same
    rw [if_neg (not_not.mpr native), if_neg (not_not.mpr native)]
    simp only [unpackTuned_eq native rows strided]
    apply unpackTiles_listed
    intro slot listed
    rcases List.mem_flatMap.mp listed with ⟨tile, inOrder, touched⟩
    exact same slot (List.mem_flatMap.mpr
      ⟨tile, walk.tuned.perm.mem_iff.mp inOrder,
        mem_tunedUnpackSlots native touched⟩)
  · rw [if_pos native] at same
    rw [if_pos native, if_pos native]
    apply unpackTiles_listed
    intro slot listed
    rcases List.mem_flatMap.mp listed with ⟨tile, inOrder, touched⟩
    exact same slot (List.mem_flatMap.mpr
      ⟨tile, walk.reference.perm.mem_iff.mp inOrder, touched⟩)

end Touched

/-! ## When the calls fit and agree -/

section Main

variable {library : Library} {args : ReorderArgs}
  {metadata : Option QuantMetadata} {merged : DlpGemmCntx}

/-- Legal blocks of a B matrix make room for whatever worker runs. -/
theorem fits_of_legal (unhinted : Unhinted metadata)
    (columns : 2 ≤ args.n) (rows : 2 ≤ args.k)
    (checked : aoclDlpReorderCheck args = .ok ())
    (served : dlpParamMapCharToLpmatType args.matType = .bMatrix)
    (merges : Merges library metadata merged) (legal : BlocksLegal merged)
    {slots : Nat → Nat → List Nat}
    (inside : (bf16Blocks (packInit library args merged).blksz).Legal →
      ∀ ways team, team ≤ ways → ∀ slot ∈ slots ways team,
        slot < roundUp args.n.toNat 16 * roundUp args.k.toNat 2) :
    ∃ size, aoclGetReorderBufSizeBf16bf16f32of32 library.around
        (sizeArgs args) metadata = .ok size ∧ size ≠ 0 ∧
      ∀ ways team, 0 < team → team ≤ ways →
        ∀ slot ∈ slots ways team, (slot : Int) < size / 2 := by
  have blocks := merges.legal legal
  rw [← @Merges.packInit_blksz library args metadata merged unhinted merges]
    at blocks
  have several : args.n.toNat ≠ 1 := by omega
  refine ⟨_, query_ok checked served merges legal, ?_, ?_⟩
  · have across := @roundUp_pos 16 args.n.toNat (by decide) (by omega)
    have down := @roundUp_pos 2 args.k.toNat (by decide) (by omega)
    have image := Nat.mul_pos across down
    unfold bf16Parts BufferParts.bytes
    rw [if_neg several]
    dsimp only
    omega
  · intro ways team _ atMost slot member
    exact lt_half_bytes several (inside blocks ways team atMost slot member)

/-- Under the condition, what the tuned reorder packs is a B matrix with
legal blocks. -/
theorem tuned_cases (unhinted : Unhinted metadata)
    (native : library.processor.avx512bf16 = true) (several : args.n ≠ 1)
    (condition : aoclDlpReorderCheck args = .ok () →
      ∀ merged, Merges library metadata merged → Meets library args merged)
    {worker : Worker}
    (runs : aoclReorderBf16bf16f32of32 library args metadata = .ok worker) :
    aoclDlpReorderCheck args = .ok () ∧
      dlpParamMapCharToLpmatType args.matType = .bMatrix ∧
      ∃ merged, Merges library metadata merged ∧ BlocksLegal merged ∧
        worker.context = some (packInit library args merged).blksz := by
  rcases (tuned_ok_iff unhinted native several).mp runs with
    ⟨checked, notA, rest⟩
  by_cases lowered : library.processor.dlpGemmGetEnabledArch = .zen3
  · rw [if_pos lowered, reference_ok_iff unhinted several] at rest
    rcases rest with ⟨-, kind, merged, merges, legal, rfl⟩
    exact ⟨checked, kind, merged, merges, legal, rfl⟩
  · rw [if_neg lowered] at rest
    rcases rest with ⟨merged, merges, kernel, rfl⟩
    have meets := condition checked merged merges
    unfold Meets at meets
    cases kind : dlpParamMapCharToLpmatType args.matType with
    | aMatrix => exact absurd kind notA
    | bMatrix =>
        rw [kind] at meets
        exact ⟨checked, rfl, merged, merges, meets.1, rfl⟩
    | awqBMatrix =>
        rw [kind] at meets
        rw [meets lowered] at kernel
        cases kernel

theorem reorder_fits (unhinted : Unhinted metadata)
    (native : library.processor.avx512bf16 = true) (columns : 2 ≤ args.n)
    (rows : 2 ≤ args.k)
    (condition : aoclDlpReorderCheck args = .ok () →
      ∀ merged, Merges library metadata merged → Meets library args merged)
    {worker : Worker}
    (runs : aoclReorderBf16bf16f32of32 library args metadata = .ok worker) :
    ∃ size, aoclGetReorderBufSizeBf16bf16f32of32 library.around
        (sizeArgs args) metadata = .ok size ∧ size ≠ 0 ∧
      ∀ ways team, 0 < team → team ≤ ways →
        ∀ slot ∈ worker.reorderSlots args.n.toNat args.k.toNat ways team,
          (slot : Int) < size / 2 := by
  rcases tuned_cases unhinted native (by omega) condition runs with
    ⟨checked, kind, merged, merges, legal, context⟩
  exact fits_of_legal unhinted columns rows checked kind merges legal
    fun blocks _ _ atMost _ member =>
      reorderSlots_lt context blocks atMost member

theorem unreorder_fits (unhinted : Unhinted metadata)
    (native : library.processor.avx512bf16 = true) (columns : 2 ≤ args.n)
    (rows : 2 ≤ args.k)
    (legal_of : aoclDlpReorderCheck args = .ok () →
      dlpParamMapCharToLpmatType args.matType = .bMatrix →
      ∀ merged, Merges library metadata merged →
        BlocksLegal merged ∧ Served library args merged) {worker : Worker}
    (runs : aoclUnreorderBf16bf16f32of32 library args metadata =
      .ok worker) :
    ∃ size, aoclGetReorderBufSizeBf16bf16f32of32 library.around
        (sizeArgs args) metadata = .ok size ∧ size ≠ 0 ∧
      ∀ ways team, 0 < team → team ≤ ways →
        ∀ slot ∈ worker.unreorderSlots args.n.toNat args.k.toNat ways team,
          (slot : Int) < size / 2 := by
  have several : args.n ≠ 1 := by omega
  rcases (tunedUnreorder_ok_iff unhinted native several).mp runs with
    ⟨checked, kind, merged, merges, rfl⟩
  exact fits_of_legal unhinted columns rows checked kind merges
    (legal_of checked kind merged merges).1
    fun blocks _ _ atMost _ member =>
      unreorderSlots_lt rfl blocks atMost member

theorem reference_of_tuned (unhinted : Unhinted metadata)
    (native : library.processor.avx512bf16 = true) (several : args.n ≠ 1)
    (condition : aoclDlpReorderCheck args = .ok () →
      ∀ merged, Merges library metadata merged → Meets library args merged)
    {worker : Worker}
    (runs : aoclReorderBf16bf16f32of32 library args metadata = .ok worker) :
    Proceeds (aoclReorderBf16bf16f32of32Reference library args metadata) := by
  rcases tuned_cases unhinted native several condition runs with
    ⟨checked, kind, merged, merges, legal, -⟩
  exact ⟨_, (reference_ok_iff unhinted several).mpr
    ⟨checked, kind, merged, merges, legal, rfl⟩⟩

theorem tuned_of_reference (unhinted : Unhinted metadata)
    (native : library.processor.avx512bf16 = true) (several : args.n ≠ 1)
    (legal_of : aoclDlpReorderCheck args = .ok () →
      dlpParamMapCharToLpmatType args.matType = .bMatrix →
      ∀ merged, Merges library metadata merged →
        BlocksLegal merged ∧ Served library args merged) {worker : Worker}
    (runs : aoclReorderBf16bf16f32of32Reference library args metadata =
      .ok worker) :
    Proceeds (aoclReorderBf16bf16f32of32 library args metadata) := by
  rcases (reference_ok_iff unhinted several).mp runs with
    ⟨checked, kind, merged, merges, legal, rfl⟩
  have notA : dlpParamMapCharToLpmatType args.matType ≠ .aMatrix := by
    rw [kind]
    decide
  by_cases lowered : library.processor.dlpGemmGetEnabledArch = .zen3
  · refine ⟨.reference (packInit library args merged),
      (tuned_ok_iff unhinted native several).mpr ⟨checked, notA, ?_⟩⟩
    rw [if_pos lowered]
    exact runs
  · have kernel := (legal_of checked kind merged merges).2.resolve_left
      lowered
    refine ⟨.tuned (packInit library args merged),
      (tuned_ok_iff unhinted native several).mpr ⟨checked, notA, ?_⟩⟩
    rw [if_neg lowered]
    exact ⟨merged, merges, kernel, rfl⟩

end Main

/-- A Zen5 machine whose generators emit every kernel. -/
def zen5Library : Library where
  engine := zen5Engine
  supThres := ⟨0, 0, 0⟩
  avx2fma3 := true

/-- A row-major 6 by 16 B matrix. -/
def sixRows : ReorderArgs :=
  ⟨'r', 'n', 'b', false, false, 6, 16, 16⟩

/-- A metadata that states only the depth of the blocks. -/
def statedDepth (KC : Int) : QuantMetadata where
  cntx := ⟨some ⟨0, 0, KC, 0, 0⟩, none, none⟩
  seqLength := 0
  hasGlu := false
  aQuantOp := none
  bQuantOp := none

end AoclDlp.Api.Bf16Reorder
