import AoclDlp.DecisionEngine.PanelAgreement
import AoclDlp.Layout.ReorderRef

/-!
# The F32 fallback of BF16 over a reordered matrix

Without native BF16 the entry point puts the F32 block sizes into its local
context and the fallback driver decodes the reordered buffer tile by tile
before it runs the F32 kernels.  The buffer was written by the reference
reorder under the BF16 block sizes.

This module embeds the reference reorder's context, the decode calls of the
driver's 5-loop and the unpack kernel, which follows the reference chunk rule
at `NR = 64`.  The kernel widens each element to F32; the model keeps the two
bytes of the element.
-/

namespace AoclDlp.Layout.Bf16Fallback

open AoclDlp.Config.BlockSize
open AoclDlp.Config.LocalContext
open AoclDlp.DecisionEngine.KernelInit
open AoclDlp.DecisionEngine.PanelAgreement
open AoclDlp.Foundations.Memory
open AoclDlp.Foundations.Rounding
open AoclDlp.Foundations.Span
open AoclDlp.Layout.Chunk
open AoclDlp.Layout.Panel
open AoclDlp.Layout.ReorderRef
open AoclDlp.Layout.TeamTiles
open AoclDlp.Threading.TaskRange

/-! ## The reference reorder -/

/-- `dlp_get_packb_bf16bf16f32of32_min_NR`. -/
def dlpGetPackbBf16bf16f32of32MinNR : Nat :=
  16

/-- The blocking of a BF16 buffer under a context. -/
def bf16Blocks (blksz : DlpGemmBlockSize) : Blocks where
  NR := blksz.NR
  minNR := dlpGetPackbBf16bf16f32of32MinNR
  NC := blksz.NC
  KC := blksz.KC
  kFactor := 2

/-- The context with which `aocl_reorder_bf16bf16f32of32_reference` packs. -/
def referenceReorderCntx (engine : Engine) (supThres : DlpGemmSupThreshold)
    (n k csB : Nat) (metadata : Option DlpMetadata) :
    Except DlpClscErr DlpGemmCntx := do
  let lcntx ← dlpGemmUpdCntxWithMetadata (globalCntx engine .bf16 supThres)
    metadata
  dlpGemmValidateHints lcntx
  let lcntx := dlpInitAndGetPackbKernelHndl engine .bf16 n k csB lcntx
  dlpGemmValidateMetadataWithLcntx lcntx metadata
  if dlpReorderRefBlocksLegal lcntx.blksz.NR dlpGetPackbBf16bf16f32of32MinNR
      lcntx.blksz.KC 2 then .ok lcntx
  else .error .invalidBlockParams

/-! ## The decode calls of the driver -/

/-- A call of `dlp_unpackb_nr64_bf16_f32`, with the tile it decodes; the two
pointers are element offsets. -/
structure UnpackCall where
  jc : Nat
  pc : Nat
  jcPackbStart : Nat
  src : Nat
  dst : Nat
  kc0 : Nat
  width : Nat
  rsB : Nat
  csB : Nat
  deriving DecidableEq, Repr

/-- `dlp_unpackb_nr64_bf16_f32`: the reference chunk rule at `NR = 64`. -/
def dlpUnpackbNr64Bf16F32 (call : UnpackCall) (b bUnreorder : Bytes) :
    Bytes :=
  dlpReorderRefUnpackb (call.src * 2) (call.dst * 2) 2 2 call.width call.kc0
    64 16 call.rsB call.csB b bUnreorder

/-- The REORDERED branch at one `jc` step and one `pc` step. -/
def decodeStep (ogBf16NR k : Nat) (threadIc : DlpTaskId) (step : JcStep)
    (row : Piece) : List UnpackCall :=
  let kUpdated := k + k % 2
  let kc0Updated := row.width + row.width % 2
  let packb := dlpThreadTaskRange threadIc step.nc0 ogBf16NR false
  if packb.1 < packb.2 ∧ packb.1 < step.jc + step.nc0 then
    [{ jc := step.jc
       pc := row.start
       jcPackbStart := packb.1
       src := step.jcCurLoop * kUpdated + step.nSubUpdated * row.start +
         (step.jcCurLoopRem + packb.1) * kc0Updated
       dst := packb.1
       kc0 := row.width
       width := packb.2 - packb.1
       rsB := step.nc0
       csB := 1 }]
  else []

/-- The decode calls of one thread in
`dlp_gemm_rowvar_f32_fallback_bf16bf16f32of32`. -/
def fallbackDecodes (processor : Processor) (blksz : DlpGemmBlockSize)
    (n k : Nat) (thread : DlpGemmThrinfo) : List UnpackCall :=
  let ogBf16NR := (dlpGemmCntxInitBlkszMap processor .bf16bf16f32of32).NR
  let ids := dlpGemmGenDlpTaskIds (some thread)
  let range := dlpThreadTaskRange ids.1 n ogBf16NR false
  (jcLoop n blksz.NC 16 range.2 range.2 range.1).flatMap fun step =>
    (pcLoop k blksz.KC k 0).flatMap (decodeStep ogBf16NR k ids.2 step)

/-- The call leaves `B[pc..pc+kc0)[jc+jc_packb_start..)` in the scratch
panel, read from the buffer `image` of the matrix. -/
def UnpackCall.Yields (call : UnpackCall) (shape : MatrixShape)
    (matrix image bUnreorder : Bytes) : Prop :=
  ∀ kr col byte, kr < call.kc0 → col < call.width → byte < 2 →
    dlpUnpackbNr64Bf16F32 call image bUnreorder
        ((call.dst + (kr * call.rsB + col * call.csB)) * 2 + byte) =
      matrix (((call.pc + kr) * shape.rsB +
        (call.jc + call.jcPackbStart + col) * shape.csB) * 2 + byte)

/-- Every tile that the driver decodes under a local context holds the
matrix, for every matrix, every run of the reorder and every thread. -/
def DecodesReordered (engine : Engine) (supThres : DlpGemmSupThreshold)
    (n k : Nat) (lcntx : DlpGemmCntx) : Prop :=
  ∀ rsB csB reordered,
    referenceReorderCntx engine supThres n k csB none = .ok reordered →
    ∀ team, 0 < team →
    ∀ (schedule : Schedule (bf16Blocks reordered.blksz) ⟨n, k, rsB, csB, 2⟩
        team) (matrix packed bUnreorder : Bytes) (thread : DlpGemmThrinfo)
      (call : UnpackCall),
      call ∈ fallbackDecodes engine.machine.processor lcntx.blksz n k
        thread →
      call.Yields ⟨n, k, rsB, csB, 2⟩ matrix
        (dlpReorderRefReorderb schedule matrix packed) bUnreorder

/-! ## The block sizes of the two sides -/

/-- The blocking of a BF16 buffer that depends on `KC` alone. -/
def imageBlocks (KC : Nat) : Blocks :=
  ⟨64, 16, 1024, KC, 2⟩

theorem imageBlocks_legal {KC : Nat} (positive : 0 < KC) (even : 2 ∣ KC) :
    (imageBlocks KC).Legal where
  widths := ⟨show 0 < 64 by decide, show 0 < 16 by decide,
    show 16 ∣ 64 by decide⟩
  KC_pos := positive
  kFactor_pos := show 0 < 2 by decide
  kFactor_dvd := even
  NC_pos := show 0 < 1024 by decide
  NR_dvd := show 64 ∣ 1024 by decide

/-- Every installed F32 entry halves or quarters the BF16 `KC` at least. -/
theorem f32_blksz (processor : Processor) :
    let f32 := dlpGemmCntxInitBlkszMap processor .f32f32f32of32
    (f32.KC = 512 ∨ f32.KC = 1024) ∧ (f32.NR = 16 ∨ f32.NR = 64) := by
  unfold dlpGemmCntxInitBlkszMap withZen3Override
  split_ifs <;> decide

section Contexts

variable {engine : Engine} {supThres : DlpGemmSupThreshold}

theorem packb_rerouted
    (reroutes : engine.machine.processor.reroutesBf16 = true)
    (n k csB : Nat) (cntx : DlpGemmCntx) :
    dlpInitAndGetPackbKernelHndl engine .bf16 n k csB cntx =
      { cntx with hasPackBKernel := false } := by
  have absent : ¬ supportsPackB engine.machine.processor .bf16 = true := by
    rw [supportsPackB, Processor.not_configured_of_reroutes reroutes]
    exact Bool.false_ne_true
  unfold dlpInitAndGetPackbKernelHndl packBPanelDim
  rw [if_neg absent]

/-- The reference reorder packs under the BF16 table entry. -/
theorem referenceReorder_blocks
    (reroutes : engine.machine.processor.reroutesBf16 = true)
    {n k csB : Nat} {reordered : DlpGemmCntx}
    (succeeds : referenceReorderCntx engine supThres n k csB none =
      .ok reordered) :
    bf16Blocks reordered.blksz = imageBlocks 4096 := by
  rcases bind_ok succeeds with ⟨merged, same, succeeds⟩
  cases same
  rcases bind_ok succeeds with ⟨_, _, succeeds⟩
  rcases bind_ok succeeds with ⟨_, _, succeeds⟩
  split at succeeds
  next =>
    cases succeeds
    rw [packb_rerouted reroutes]
    change bf16Blocks (dlpGemmCntxInitBlkszMap engine.machine.processor
      .bf16bf16f32of32) = _
    rw [bf16_blksz]
    rfl
  next => cases succeeds

/-- What a rerouted call hands to the engine. -/
theorem mergedCall_rerouted
    (reroutes : engine.machine.processor.reroutesBf16 = true)
    {call : GemmCall} (rows : 2 ≤ call.m)
    {merged : DlpGemmCntx × GemmCall}
    (succeeds : mergedCall engine .bf16 supThres call none = .ok merged) :
    merged = (withF32Blksz engine.machine.processor
      ((globalCntx engine .bf16 supThres).withThreads call.rntm), call) := by
  have several : ¬ call.m = 1 := by omega
  rcases bind_ok succeeds with ⟨lcntx, same, succeeds⟩
  have copied : lcntx =
      (globalCntx engine .bf16 supThres).withThreads call.rntm := by
    unfold updBf16Cntx at same
    split at same
    next =>
      cases same
      rfl
    next =>
      cases same
      rfl
  rw [if_pos reroutes, if_neg several] at succeeds
  split at succeeds
  next => cases succeeds
  next =>
    cases succeeds
    rw [copied]

/-- The rerouted F32 fold keeps the context's `NR` and `KC`. -/
theorem kernelInfo_rerouted
    (reroutes : engine.machine.processor.reroutesBf16 = true)
    {call : GemmCall} (rows : 2 ≤ call.m) (columns : 2 ≤ call.n)
    {cntx : DlpGemmCntx} {info : KernelInfo} {threads : DlpGemmThreadInfo}
    (found : dlpGetGemmKernelInfoByDtype engine .bf16 call (hintsOf cntx) =
      some (info, threads)) :
    info.dims.nr = cntx.blksz.NR ∧ info.kc = cntx.blksz.KC := by
  have matrix : ¬ (call.m = 1 ∨ call.n = 1) := by omega
  have generates : canGenerateKernelInfo engine.machine.processor .bf16 =
      true := rfl
  unfold dlpGetGemmKernelInfoByDtype at found
  dsimp only at found
  rw [if_pos generates,
    if_pos ⟨rfl, Processor.not_configured_of_reroutes reroutes⟩,
    if_neg matrix] at found
  rcases Option.map_eq_some_iff.mp found with ⟨f32, folded, same⟩
  cases same
  unfold F32Backend.gemmKernelInfo at folded
  split at folded
  next =>
    split at folded
    next => cases folded
    next =>
      rcases Option.map_eq_some_iff.mp folded with ⟨_, _, same⟩
      cases same
      exact ⟨rfl, rfl⟩
  next => cases folded

/-- A rerouted call reaches the fallback driver with the F32 `KC`. -/
theorem gemmCntx_rerouted
    (reroutes : engine.machine.processor.reroutesBf16 = true)
    {call : GemmCall} (rows : 2 ≤ call.m) (columns : 2 ≤ call.n)
    {running : DlpGemmCntx}
    (succeeds : gemmCntx engine .bf16 supThres call none = .ok running) :
    running.blksz.NC = 1024 ∧
      running.blksz.KC = (dlpGemmCntxInitBlkszMap engine.machine.processor
        .f32f32f32of32).KC := by
  rcases bind_ok succeeds with ⟨merged, merges, succeeds⟩
  cases mergedCall_rerouted reroutes rows merges
  rcases bind_ok succeeds with ⟨_, _, succeeds⟩
  dsimp only at succeeds
  rw [packb_rerouted reroutes] at succeeds
  split at succeeds
  next yields =>
    split at succeeds
    next => cases succeeds
    next =>
      rcases bind_ok succeeds with ⟨_, _, done⟩
      cases done
      rcases kernel_settles yields with ⟨info, threads, found, settles⟩
      rcases kernelInfo_rerouted reroutes rows columns found with ⟨nr, kc⟩
      refine ⟨?_, settles.KC.trans kc⟩
      change DlpGemmBlockSize.NC (DlpGemmCntx.blksz
        (dlpInitAndGetKernelHndl engine .bf16 call _)) = 1024
      rw [settles.NC, nr]
      change roundUp (dlpGemmCntxInitBlkszMap engine.machine.processor
          .bf16bf16f32of32).NC (dlpGemmCntxInitBlkszMap
            engine.machine.processor .f32f32f32of32).NR = 1024
      rw [bf16_blksz]
      rcases (f32_blksz engine.machine.processor).2 with narrow | wide
      · rw [narrow]
        decide
      · rw [wide]
        decide
  next => cases succeeds

end Contexts

/-! ## A decode call reads the slots of its tile -/

theorem add_mod_two_eq (value : Nat) :
    value + value % 2 = dlpReorderRoundUp value 2 := by
  rw [dlpReorderRoundUp, if_neg (by decide)]
  omega

/-- A call decodes a tile into a scratch panel at least as wide. -/
structure UnpackCall.Decodes (call : UnpackCall) (tile : Tile) : Prop where
  src : call.src = tile.off
  jc : call.jc + call.jcPackbStart = tile.jc
  pc : call.pc = tile.pc
  kc0 : call.kc0 = tile.kc0
  width : call.width = tile.nc0
  fits : call.width ≤ call.rsB
  csB : call.csB = 1

section Decode

variable {KC : Nat} (legal : (imageBlocks KC).Legal) {n k : Nat}

/-- The branch decodes an aligned slice of the step's tile. -/
theorem decodeStep_slice {threadIc : DlpTaskId} {step : JcStep} {row : Piece}
    {call : UnpackCall}
    (placed : (tileAt (imageBlocks KC) k step row).Placed legal n k)
    (member : call ∈ decodeStep 64 k threadIc step row) :
    ∃ tile : Tile, tile.Placed legal n k ∧ call.Decodes tile := by
  unfold decodeStep at member
  dsimp only at member
  split at member
  next guard =>
    rw [List.mem_singleton] at member
    subst member
    by_cases valid : threadIc.workId < threadIc.nWay
    · rw [dlpThreadTaskRange_highEdge threadIc step.nc0 64 valid] at guard ⊢
      have aligned := highEdgeCut_dvd step.nc0 64 valid
      have ends := highEdgeCut_ends step.nc0 64 valid
      refine ⟨_, placed.slice aligned guard.1 ends, ?_⟩
      refine ⟨?_, rfl, rfl, rfl, rfl, ?_, rfl⟩
      · change _ = _ * dlpReorderRoundUp k 2 + _ +
          _ * dlpReorderRoundUp row.width 2 +
          _ * dlpReorderRoundUp row.width 2
        rw [← add_mod_two_eq, ← add_mod_two_eq]
        ring
      · change highEdgeCut _ _ _ _ - highEdgeCut _ _ _ _ ≤ step.nc0
        omega
    · rw [dlpThreadTaskRange, if_pos (Nat.le_of_not_lt valid)] at guard
      exact absurd guard.1 (lt_irrefl _)
  next => cases member

/-- Every decode call of a thread decodes a placed tile. -/
theorem fallbackDecodes_tile {processor : Processor}
    {blksz : DlpGemmBlockSize} (nc : blksz.NC = 1024) (kc : blksz.KC = KC)
    {thread : DlpGemmThrinfo} {call : UnpackCall}
    (member : call ∈ fallbackDecodes processor blksz n k thread) :
    ∃ tile : Tile, tile.Placed legal n k ∧ call.Decodes tile := by
  unfold fallbackDecodes at member
  dsimp only at member
  rw [bf16_blksz, nc, kc] at member
  generalize dlpGemmGenDlpTaskIds (some thread) = ids at member
  rcases List.mem_flatMap.mp member with ⟨step, inLoop, inRows⟩
  rcases List.mem_flatMap.mp inRows with ⟨row, rowMember, inStep⟩
  by_cases valid : ids.1.workId < ids.1.nWay
  · rw [dlpThreadTaskRange_highEdge ids.1 n 64 valid] at inLoop
    apply decodeStep_slice legal _ inStep
    apply rangeTiles_placed legal (highEdgeCut_dvd n 64 valid)
      (highEdgeCut_le_succ ids.1.nWay n 64 ids.1.workId)
      (highEdgeCut_ends n 64 valid)
    exact List.mem_flatMap.mpr
      ⟨step, inLoop, List.mem_map_of_mem rowMember⟩
  · rw [dlpThreadTaskRange, if_pos (Nat.le_of_not_lt valid),
      jcLoop_eq_nil n 1024 16 n le_rfl] at inLoop
    cases inLoop

/-- The unpack kernel copies the slots of a chunk walk. -/
theorem unpack_eq_copyElems (KC : Nat) (call : UnpackCall)
    (b bUnreorder : Bytes) :
    dlpUnpackbNr64Bf16F32 call b bUnreorder =
      copyElems 2 ((panelMoves (imageBlocks KC) call.width call.kc0 call.rsB
        call.csB).map fun move => (call.dst + move.2, call.src + move.1)) b
        bUnreorder := by
  simp only [dlpUnpackbNr64Bf16F32, dlpReorderRefUnpackb, copyElems,
    panelMoves, imageBlocks, List.foldl_map, List.foldl_flatMap,
    dlpReorderCopyElem, Nat.add_mul]

/-- Positions of a panel with `rs` columns determine row and column. -/
theorem position_injective {rs kr col kr2 col2 : Nat} (inside : col < rs)
    (inside2 : col2 < rs)
    (same : kr2 * rs + col2 * 1 = kr * rs + col * 1) :
    kr2 = kr ∧ col2 = col := by
  rw [Nat.mul_one, Nat.mul_one] at same
  have positive : 0 < rs := Nat.zero_lt_of_lt inside
  have split := element_of_byte positive kr inside
  have split2 := element_of_byte positive kr2 inside2
  rw [same] at split2
  exact ⟨split2.1.symm.trans split.1, split2.2.symm.trans split.2⟩

/-- A decoded element is read from its slot under the decoder's blocking. -/
theorem unpack_at_slot {tile : Tile} (placed : tile.Placed legal n k)
    {call : UnpackCall} (decodes : call.Decodes tile)
    (b bUnreorder : Bytes) {kr col byte : Nat} (row : kr < call.kc0)
    (column : col < call.width) (inside : byte < 2) :
    dlpUnpackbNr64Bf16F32 call b bUnreorder
        ((call.dst + (kr * call.rsB + col * call.csB)) * 2 + byte) =
      b (slotOf legal n k (tile.pc + kr) (tile.jc + col) * 2 + byte) := by
  have split := element_of_byte (show 0 < 2 by decide)
    (call.dst + (kr * call.rsB + col * call.csB)) inside
  have slot := slotOf_eq_tile_offset placed (row.trans_eq decodes.kc0)
    (column.trans_eq decodes.width)
  rw [← decodes.src, ← decodes.kc0, ← decodes.width] at slot
  rw [← slot, unpack_eq_copyElems KC]
  refine (copyElems_hit (by decide) _ _ _ ?_ ?_).trans
    (congrArg b (congrArg _ split.2))
  · rw [split.1]
    exact List.mem_map.mpr ⟨_, (mem_panelMoves_iff legal).mpr
      ⟨kr, col, row, column, rfl⟩, rfl⟩
  · rw [split.1]
    intro move member same
    rcases List.mem_map.mp member with ⟨_, inMoves, rfl⟩
    rcases (mem_panelMoves_iff legal).mp inMoves with
      ⟨kr2, col2, _, column2, rfl⟩
    have positions := Nat.add_left_cancel same
    rw [decodes.csB] at positions
    rcases position_injective (column.trans_le decodes.fits)
        (column2.trans_le decodes.fits) positions with ⟨rfl, rfl⟩
    rfl

/-- A decode call reads each of its elements from the element's slot. -/
theorem decoded_eq {processor : Processor} {blksz : DlpGemmBlockSize}
    (nc : blksz.NC = 1024) (kc : blksz.KC = KC) {thread : DlpGemmThrinfo}
    {call : UnpackCall}
    (member : call ∈ fallbackDecodes processor blksz n k thread)
    (b bUnreorder : Bytes) {kr col byte : Nat} (row : kr < call.kc0)
    (column : col < call.width) (inside : byte < 2) :
    (call.pc + kr < k ∧ call.jc + call.jcPackbStart + col < n) ∧
      dlpUnpackbNr64Bf16F32 call b bUnreorder
          ((call.dst + (kr * call.rsB + col * call.csB)) * 2 + byte) =
        b (slotOf legal n k (call.pc + kr)
          (call.jc + call.jcPackbStart + col) * 2 + byte) := by
  rcases fallbackDecodes_tile legal nc kc member with
    ⟨tile, placed, decodes⟩
  have window : InWindow tile (tile.pc + kr) (tile.jc + col) :=
    ⟨⟨Nat.le_add_right _ _,
        Nat.add_lt_add_left (row.trans_eq decodes.kc0) _⟩,
      Nat.le_add_right _ _,
      Nat.add_lt_add_left (column.trans_eq decodes.width) _⟩
  rw [decodes.jc, decodes.pc]
  exact ⟨⟨row_lt_of_window placed window, column_lt_of_window placed window⟩,
    unpack_at_slot legal placed decodes b bUnreorder row column inside⟩

end Decode

/-- The reordered buffer holds each element at its slot. -/
theorem image_at_slot {KC : Nat} (legal : (imageBlocks KC).Legal)
    {blocks : Blocks} (isImage : blocks = imageBlocks KC)
    {n k rsB csB team : Nat} (delivered : 0 < team)
    (schedule : Schedule blocks ⟨n, k, rsB, csB, 2⟩ team)
    (matrix packed : Bytes) {p j byte : Nat} (row : p < k) (column : j < n)
    (inside : byte < 2) :
    dlpReorderRefReorderb schedule matrix packed
        (slotOf legal n k p j * 2 + byte) =
      matrix ((p * rsB + j * csB) * 2 + byte) := by
  subst isImage
  have split := element_of_byte (show 0 < 2 by decide)
    (slotOf legal n k p j) inside
  rw [reorderb_at_slot legal delivered (show 0 < 2 by decide) schedule matrix
    packed row column split.1, split.2]

theorem singleThread_range (extent : Nat) :
    dlpThreadTaskRange ⟨0, 1, 0⟩ extent 64 false = (0, extent) := by
  rw [dlpThreadTaskRange_highEdge ⟨0, 1, 0⟩ extent 64 (by decide)]
  simp [highEdgeCut]

/-- The single thread decodes a step's whole tile in one call. -/
theorem decodeStep_single {step : JcStep} (nonempty : 0 < step.nc0)
    (k : Nat) (row : Piece) :
    ∃ call ∈ decodeStep 64 k ⟨0, 1, 0⟩ step row,
      call.jc + call.jcPackbStart = step.jc ∧ call.pc = row.start ∧
        call.kc0 = row.width ∧ call.width = step.nc0 := by
  unfold decodeStep
  dsimp only
  rw [singleThread_range, if_pos ⟨nonempty, by omega⟩]
  exact ⟨_, List.mem_singleton_self _, rfl, rfl, rfl, rfl⟩

/-- The single thread decodes every element. -/
theorem exists_decode {KC n k : Nat} (legal : (imageBlocks KC).Legal)
    {processor : Processor} {blksz : DlpGemmBlockSize}
    (nc : blksz.NC = 1024) (kc : blksz.KC = KC) {p j : Nat} (row : p < k)
    (column : j < n) :
    ∃ call ∈ fallbackDecodes processor blksz n k ⟨1, 0, 1, 1⟩,
      ∃ kr col, kr < call.kc0 ∧ col < call.width ∧ call.pc + kr = p ∧
        call.jc + call.jcPackbStart + col = j := by
  rcases exists_window legal Nat.one_pos row column with
    ⟨tile, member, window⟩
  have nonempty := (teamTiles_placed legal member).nonempty
  rcases List.mem_flatMap.mp member with ⟨tid, inTeam, inTiles⟩
  rw [List.mem_range, Nat.lt_one_iff] at inTeam
  subst inTeam
  rcases List.mem_flatMap.mp inTiles with ⟨step, inLoop, inRows⟩
  rcases List.mem_map.mp inRows with ⟨piece, inPieces, rfl⟩
  rcases decodeStep_single nonempty k piece with
    ⟨call, inStep, jc, pc, kc0, width⟩
  refine ⟨call, ?_, p - piece.start, j - step.jc, ?_⟩
  · unfold fallbackDecodes
    dsimp only
    rw [bf16_blksz, nc, kc]
    exact List.mem_flatMap.mpr
      ⟨step, inLoop, List.mem_flatMap.mpr ⟨piece, inPieces, inStep⟩⟩
  · rw [jc, pc, kc0, width]
    change (piece.start ≤ p ∧ p < piece.start + piece.width) ∧
      step.jc ≤ j ∧ j < step.jc + step.nc0 at window
    omega

/-! ## When the two blockings agree -/

section Agreement

variable {KC KC2 : Nat} (legal : (imageBlocks KC).Legal)
    (legal2 : (imageBlocks KC2).Legal) {n k : Nat}

include legal in
theorem even_KC : 2 ∣ KC :=
  legal.kFactor_dvd

theorem slotOf_image (p j : Nat) :
    slotOf legal n k p j =
      blockStart j 1024 * roundUp k 2 +
        min 1024 (roundUp n 16 - blockStart j 1024) * blockStart p KC +
        ((chunkStart n 64 16 j - blockStart j 1024) *
            min KC (roundUp k 2 - blockStart p KC) +
          dlpReorderElemOffset (p - blockStart p KC)
            (j - chunkStart n 64 16 j) (chunkSlot n 64 16 j) 2) :=
  rfl

/-- One row block: the slots do not depend on `KC`. -/
theorem slotOf_short (short : k ≤ KC) (short2 : k ≤ KC2) {p : Nat}
    (row : p < k) (j : Nat) :
    slotOf legal n k p j = slotOf legal2 n k p j := by
  have first {block : Nat} (fits : k ≤ block) : blockStart p block = 0 :=
    blockStart_eq (dvd_zero block) (Nat.zero_le p) (by omega)
  have height {block : Nat} (even : 2 ∣ block) (fits : k ≤ block) :
      min block (roundUp k 2 - 0) = roundUp k 2 :=
    min_eq_right (roundUp_le_of_dvd (by decide) even fits)
  rw [slotOf_image, slotOf_image, first short, first short2,
    height (even_KC legal) short, height (even_KC legal2) short2]

/-- The widths whose columns form one chunk. -/
def SingleChunk (n : Nat) : Prop :=
  n ≤ 64 ∧ (n < 16 ∨ n % 16 = 0)

theorem chunk_of_single (single : SingleChunk n) {j : Nat}
    (column : j < n) :
    chunkStart n 64 16 j = 0 ∧ chunkSlot n 64 16 j = roundUp n 16 := by
  rcases single with ⟨narrow, whole⟩
  unfold chunkStart chunkSlot blockStart roundUp
  split_ifs <;> constructor <;> omega

/-- One chunk: the slots do not depend on `KC`. -/
theorem slotOf_single (single : SingleChunk n) {p j : Nat}
    (column : j < n) :
    slotOf legal n k p j =
      dlpReorderElemOffset p j (roundUp n 16) 2 := by
  have chunk := chunk_of_single single column
  have panel : blockStart j 1024 = 0 :=
    blockStart_eq (dvd_zero 1024) (Nat.zero_le j)
      (by have := single.1; omega)
  have width : min 1024 (roundUp n 16 - 0) = roundUp n 16 := by
    apply min_eq_right
    have close := roundUp_lt (show 0 < 16 by decide) n
    have := single.1
    omega
  have even : 2 ∣ blockStart p KC :=
    (even_KC legal).trans (dvd_blockStart p KC)
  have lower := blockStart_le p KC
  have halves : p / 2 = blockStart p KC / 2 + (p - blockStart p KC) / 2 := by
    omega
  have parity : (p - blockStart p KC) % 2 = p % 2 := by omega
  have doubled : blockStart p KC / 2 * 2 = blockStart p KC :=
    Nat.div_mul_cancel even
  rw [slotOf_image, chunk.1, chunk.2, panel, width]
  unfold dlpReorderElemOffset
  rw [parity, halves]
  nth_rewrite 1 [← doubled]
  simp only [Nat.sub_zero, Nat.zero_mul, Nat.zero_add]
  ring

/-- The first column after the first chunk. -/
def secondChunk (n : Nat) : Nat :=
  if 64 < n then 64 else n / 16 * 16

theorem secondChunk_spec (several : ¬ SingleChunk n) :
    secondChunk n < n ∧ 0 < secondChunk n ∧
      chunkStart n 64 16 (secondChunk n) = secondChunk n ∧
      chunkStart n 64 16 0 = 0 ∧
      chunkSlot n 64 16 0 = secondChunk n := by
  unfold SingleChunk at several
  unfold secondChunk chunkStart chunkSlot blockStart
  split_ifs <;> omega

/--
With a second row block, the decoder looks for the first element of the second
chunk where the reorder stored the first element of row `KC`.
-/
theorem slotOf_secondChunk (several : ¬ SingleChunk n) (tall : KC < k)
    (lower : KC < KC2) :
    slotOf legal n k 0 (secondChunk n) = slotOf legal2 n k KC 0 := by
  rcases secondChunk_spec several with
    ⟨_, positive, start, firstStart, firstSlot⟩
  have even := even_KC legal
  have narrow : secondChunk n < 1024 := by
    unfold secondChunk
    split_ifs <;> omega
  have panel : blockStart (secondChunk n) 1024 = 0 :=
    blockStart_eq (dvd_zero 1024) (Nat.zero_le _) (by omega)
  have block : blockStart KC KC2 = 0 :=
    blockStart_eq (dvd_zero KC2) (Nat.zero_le KC) (by omega)
  have height : min KC (roundUp k 2 - 0) = KC := by
    have covers := le_roundUp (show 0 < 2 by decide) k
    omega
  have halves : KC / 2 * 2 = KC := Nat.div_mul_cancel even
  have parity : KC % 2 = 0 := Nat.mod_eq_zero_of_dvd even
  have zeroBlock (unit : Nat) : blockStart 0 unit = 0 := by
    simp [blockStart]
  rw [slotOf_image, slotOf_image, start, firstStart, firstSlot, panel, block,
    zeroBlock, zeroBlock, height]
  unfold dlpReorderElemOffset
  simp only [Nat.sub_zero, Nat.sub_self, Nat.mul_zero, Nat.zero_mul,
    Nat.zero_add, Nat.add_zero, Nat.zero_div, Nat.zero_mod, parity]
  rw [← Nat.mul_assoc, halves, Nat.mul_comm]

end Agreement

/-! ## The fallback over a reordered matrix -/

section Fallback

variable {engine : Engine} {supThres : DlpGemmSupThreshold}
    {call : GemmCall} {running : DlpGemmCntx}

theorem referenceReorder_succeeds
    (reroutes : engine.machine.processor.reroutesBf16 = true)
    (supThres : DlpGemmSupThreshold) (n k csB : Nat) :
    ∃ reordered, referenceReorderCntx engine supThres n k csB none =
      .ok reordered := by
  refine ⟨{ globalCntx engine .bf16 supThres with
    hasPackBKernel := false }, ?_⟩
  have legal : dlpReorderRefBlocksLegal
      (globalCntx engine .bf16 supThres).blksz.NR
      dlpGetPackbBf16bf16f32of32MinNR
      (globalCntx engine .bf16 supThres).blksz.KC 2 = true := by
    change dlpReorderRefBlocksLegal (dlpGemmCntxInitBlkszMap
      engine.machine.processor .bf16bf16f32of32).NR _
      (dlpGemmCntxInitBlkszMap engine.machine.processor
        .bf16bf16f32of32).KC 2 = true
    rw [bf16_blksz]
    decide
  change (if dlpReorderRefBlocksLegal
      (dlpInitAndGetPackbKernelHndl engine .bf16 n k csB
        (globalCntx engine .bf16 supThres)).blksz.NR
      dlpGetPackbBf16bf16f32of32MinNR
      (dlpInitAndGetPackbKernelHndl engine .bf16 n k csB
        (globalCntx engine .bf16 supThres)).blksz.KC 2 = true then _
    else _) = _
  rw [packb_rerouted reroutes, if_pos legal]

/-- The `KC` that start-up installs for F32. -/
def f32KC (processor : Processor) : Nat :=
  (dlpGemmCntxInitBlkszMap processor .f32f32f32of32).KC

theorem f32KC_lt (processor : Processor) : f32KC processor < 4096 := by
  rcases (f32_blksz processor).1 with half | quarter
  · exact half.trans_lt (by decide)
  · exact quarter.trans_lt (by decide)

theorem f32_legal (processor : Processor) :
    (imageBlocks (f32KC processor)).Legal := by
  rcases (f32_blksz processor).1 with half | quarter
  · rw [f32KC, half]
    exact imageBlocks_legal (by decide) (by decide)
  · rw [f32KC, quarter]
    exact imageBlocks_legal (by decide) (by decide)

theorem bf16_legal : (imageBlocks 4096).Legal :=
  imageBlocks_legal (by decide) (by decide)

/-- On one row block or one chunk the two blockings place alike. -/
theorem slots_agree {n k p j : Nat} (processor : Processor)
    (agrees : k ≤ f32KC processor ∨ SingleChunk n) (row : p < k)
    (column : j < n) :
    slotOf (f32_legal processor) n k p j = slotOf bf16_legal n k p j := by
  have lower := f32KC_lt processor
  rcases agrees with short | single
  · exact slotOf_short _ _ short (short.trans lower.le) row j
  · rw [slotOf_single _ single column, slotOf_single _ single column]

/-- A decoded tile is wrong once a second row block meets a second chunk. -/
theorem not_decodes
    (reroutes : engine.machine.processor.reroutesBf16 = true) {n k : Nat}
    (nc : running.blksz.NC = 1024)
    (kc : running.blksz.KC = f32KC engine.machine.processor)
    (tall : f32KC engine.machine.processor < k)
    (several : ¬ SingleChunk n) :
    ¬ DecodesReordered engine supThres n k running := by
  intro decodes
  have legal := f32_legal engine.machine.processor
  rcases secondChunk_spec several with ⟨inside, positive, _⟩
  rcases referenceReorder_succeeds reroutes supThres n k 1 with
    ⟨reordered, packs⟩
  rcases exists_decode legal nc kc (Nat.zero_lt_of_lt tall) inside with
    ⟨unpack, member, kr, col, row, column, atRow, atColumn⟩
  let matrix : Bytes := fun address =>
    if address = secondChunk n * 2 then 1 else 0
  have yields := decodes n 1 reordered packs 1 Nat.one_pos
    (.inOrder _ _ 1) matrix (fun _ => 0) (fun _ => 0) ⟨1, 0, 1, 1⟩ unpack
    member kr col 0 row column (by decide)
  rw [(decoded_eq legal nc kc member _ _ row column (by decide)).2, atRow,
    atColumn, slotOf_secondChunk legal bf16_legal several tall
      (f32KC_lt engine.machine.processor),
    image_at_slot bf16_legal (referenceReorder_blocks reroutes packs)
      Nat.one_pos _ _ _ tall (Nat.zero_lt_of_lt inside) (by decide)]
    at yields
  have apart : (f32KC engine.machine.processor * n + 0 * 1) * 2 + 0 ≠
      secondChunk n * 2 := by
    have factor : 1 * n ≤ f32KC engine.machine.processor * n :=
      Nat.mul_le_mul_right n legal.KC_pos
    omega
  have same : (0 * n + secondChunk n * 1) * 2 + 0 = secondChunk n * 2 := by
    omega
  simp only [matrix, if_neg apart, if_pos same] at yields
  cases yields

/--
A rerouted call decodes the matrix from its reordered buffer exactly when the
F32 `KC` covers the depth or the columns form one chunk.
-/
theorem fallback_decodes_iff
    (reroutes : engine.machine.processor.reroutesBf16 = true)
    (rows : 2 ≤ call.m) (columns : 2 ≤ call.n)
    (reaches : gemmCntx engine .bf16 supThres call none = .ok running) :
    DecodesReordered engine supThres call.n call.k running ↔
      call.k ≤ f32KC engine.machine.processor ∨ SingleChunk call.n := by
  rcases gemmCntx_rerouted reroutes rows columns reaches with ⟨nc, kc⟩
  constructor
  · intro decodes
    by_contra fails
    rcases not_or.mp fails with ⟨tall, several⟩
    exact not_decodes reroutes nc kc (Nat.lt_of_not_le tall) several decodes
  · intro agrees rsB csB reordered packs team delivered schedule matrix
      packed bUnreorder thread unpack member kr col byte row column inside
    rcases decoded_eq (f32_legal engine.machine.processor) nc kc member
        (dlpReorderRefReorderb schedule matrix packed) bUnreorder row column
        inside with ⟨⟨rowLt, columnLt⟩, decoded⟩
    rw [decoded, slots_agree _ agrees rowLt columnLt]
    exact image_at_slot bf16_legal (referenceReorder_blocks reroutes packs)
      delivered schedule matrix packed rowLt columnLt inside

end Fallback

/-- A Zen3 machine whose F32 generator emits every kernel. -/
def zen3Engine : Engine where
  machine :=
    { processor := ⟨false, false, false, false, false, .zen3, false⟩
      topology := ⟨8, 33554432⟩ }
  f32Backend := ⟨false, true, .none, true⟩
  jitKernel := fun _ _ => true
  jitPackBKernel := fun _ _ => true

/-- A four-row call over a reordered `k` by 128 matrix on one thread. -/
def fallbackCall (k : Nat) : GemmCall :=
  ⟨4, 128, k, k, 1, .unpacked, .reordered, ⟨1, -1, -1⟩, false⟩

/-- A depth that the F32 `KC` covers. -/
theorem fallback_decodes_iff_short :
    ∃ running,
      gemmCntx zen3Engine .bf16 ⟨0, 0, 0⟩ (fallbackCall 64) none =
          .ok running ∧
        DecodesReordered zen3Engine ⟨0, 0, 0⟩ 128 64 running := by
  refine ⟨_, rfl, ?_⟩
  exact (@fallback_decodes_iff zen3Engine ⟨0, 0, 0⟩ (fallbackCall 64) _
    (by decide) (by decide) (by decide) rfl).mpr (Or.inl (by decide))

/-- On Zen3 a 514 by 128 matrix is decoded under another `KC` than it was
packed under, and wrongly. -/
theorem fallback_misreads_reordered :
    ∃ reordered running,
      referenceReorderCntx zen3Engine ⟨0, 0, 0⟩ 128 514 1 none =
          .ok reordered ∧
        gemmCntx zen3Engine .bf16 ⟨0, 0, 0⟩ (fallbackCall 514) none =
          .ok running ∧
        reordered.blksz.KC = 4096 ∧ running.blksz.KC = 512 ∧
        ¬ DecodesReordered zen3Engine ⟨0, 0, 0⟩ 128 514 running := by
  refine ⟨_, _, rfl, rfl, by decide, by decide, ?_⟩
  apply not_decodes (by decide) (by decide) (by decide) (by decide)
  unfold SingleChunk
  decide

end AoclDlp.Layout.Bf16Fallback
