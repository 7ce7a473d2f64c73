import AoclDlp.Gemm.Scratch
import AoclDlp.Quant.Bf16s4Reorder

/-!
# The int4 frame of the BF16 path

`dlp_gemm_rowvar_bf16s4f32of32` reads a reordered int4 matrix.  With
`PACK_KC` the threads of a group convert a panel to BF16 together, with
`PACK_NR` a thread converts strip by strip into a private buffer, and else the
kernel reads the nibbles.  The frame adds two halved offsets to find a tile
and passes the first row and column of the tile to the converter.

The model has the calls with more than one column; the packer for a single
column is another one.
-/

namespace AoclDlp.Quant.Bf16s4Frame

open AoclDlp.Config.BlockSize
open AoclDlp.Foundations.Rounding
open AoclDlp.Foundations.Span
open AoclDlp.Gemm.PackProtocol
open AoclDlp.Gemm.Scratch
open AoclDlp.Layout.Bf16Fallback
open AoclDlp.Layout.Chunk
open AoclDlp.Layout.Nibbles
open AoclDlp.Layout.Panel
open AoclDlp.Layout.ReorderRef
open AoclDlp.Layout.S8s8s32
open AoclDlp.Layout.TeamTiles
open AoclDlp.Layout.TunedBf16
open AoclDlp.Quant.Bf16s4Reorder
open AoclDlp.Quant.ShortTeam
open AoclDlp.Threading.TaskRange
open AoclDlp.Threading.WorkPartition

/-! ## The frame -/

/-- The tags of B that the frame tells apart. -/
inductive MtagB where
  | packKc
  | packNr
  | unpacked
  deriving DecidableEq, Repr

/-- A tile of the reordered matrix that is converted or multiplied: its
loop variables, the two offsets that are halved, and its coordinates. -/
structure CompactTile where
  jc : Nat
  jr : Nat
  pc : Nat
  width : Nat
  kc0 : Nat
  panelNibbles : Nat
  tileNibbles : Nat
  preOpBI : Nat
  preOpBJ : Nat
  deriving DecidableEq, Repr

/-- The byte offset of a tile. -/
def CompactTile.src (tile : CompactTile) : Nat :=
  tile.panelNibbles / 2 + tile.tileNibbles / 2

/-- A strip that a kernel reads from a conversion buffer. -/
structure KernelStrip where
  jc : Nat
  jr : Nat
  pc : Nat
  nr0 : Nat
  kc0 : Nat
  bUse : Nat
  deriving DecidableEq, Repr

/-- What a thread does with B: convert a tile to an element of a buffer, run
a BF16 kernel over a converted strip, or run the int4 kernel over a tile. -/
inductive BUse where
  | convert (tile : CompactTile) (dst : Nat)
  | multiply (strip : KernelStrip)
  | multiplyCompact (tile : CompactTile)
  deriving DecidableEq, Repr

/-- The offset of a panel in nibbles, before it is halved. -/
def panelNibbles (k : Nat) (step : JcStep) (row : Piece) : Nat :=
  step.jcCurLoop * updatedRows k + step.nSubUpdated * row.start +
    step.jcCurLoopRem * updatedRows row.width

/-- The `width` columns from `jr` of a panel. -/
def compactTile (k : Nat) (step : JcStep) (row : Piece) (jr width : Nat) :
    CompactTile where
  jc := step.jc
  jr := jr
  pc := row.start
  width := width
  kc0 := row.width
  panelNibbles := panelNibbles k step row
  tileNibbles := jr * updatedRows row.width
  preOpBI := row.start
  preOpBJ := step.jcCurLoop + step.jcCurLoopRem + jr

/-- `jc_packb_start` and `jc_packb_end`. -/
def packRange (blksz : DlpGemmBlockSize) (thread : DlpGemmThrinfo)
    (nc0 : Nat) : Nat × Nat :=
  dlpThreadTaskRange (dlpGemmGenDlpTaskIds (some thread)).2 nc0 blksz.NR
    false

/-- The `PACK_KC` conversion at one `jc` step and one `pc` step. -/
def convertPart (blksz : DlpGemmBlockSize) (k : Nat)
    (thread : DlpGemmThrinfo) (step : JcStep) (row : Piece) : List BUse :=
  let packb := packRange blksz thread step.nc0
  if packb.1 < packb.2 ∧ packb.1 < step.jc + step.nc0 then
    [.convert (compactTile k step row packb.1 (packb.2 - packb.1))
      (packb.1 * updatedRows row.width)]
  else []

/-- The body of the `jr` loop. -/
def stripUses (mtagB : MtagB) (k : Nat) (step : JcStep) (row jr : Piece) :
    List BUse :=
  match mtagB with
  | .packNr =>
      [.convert (compactTile k step row jr.start jr.width) 0,
        .multiply ⟨step.jc, jr.start, row.start, jr.width, row.width, 0⟩]
  | .packKc =>
      [.multiply ⟨step.jc, jr.start, row.start, jr.width, row.width,
        jr.start * updatedRows row.width⟩]
  | .unpacked =>
      [.multiplyCompact (compactTile k step row jr.start jr.width)]

/-- What a thread does at one `jc` step and one `pc` step; the loops over rows
and strips step like the `pc` loop. -/
def panelUses (mtagB : MtagB) (blksz : DlpGemmBlockSize) (m k : Nat)
    (thread : DlpGemmThrinfo) (step : JcStep) (row : Piece) : List BUse :=
  let icRange := gemmIcRange thread m blksz.MR
  (if mtagB = .packKc then convertPart blksz k thread step row else []) ++
    (pcLoop icRange.2 blksz.MC icRange.2 icRange.1).flatMap fun _ =>
      (pcLoop step.nc0 blksz.NR step.nc0 0).flatMap fun jr =>
        stripUses mtagB k step row jr

/-- The `jc` steps of a thread. -/
def frameSteps (blksz : DlpGemmBlockSize) (n : Nat)
    (thread : DlpGemmThrinfo) : List JcStep :=
  let jcRange := gemmJcRange thread n blksz.NR
  jcLoop n blksz.NC dlpGetPackbBf16bf16f32of32MinNR jcRange.2 jcRange.2
    jcRange.1

/-- `dlp_gemm_rowvar_bf16s4f32of32`, as far as it handles B. -/
def dlpGemmRowvarBf16s4f32of32 (mtagB : MtagB) (blksz : DlpGemmBlockSize)
    (m n k : Nat) (thread : DlpGemmThrinfo) : List BUse :=
  (frameSteps blksz n thread).flatMap fun step =>
    (pcLoop k blksz.KC k 0).flatMap (panelUses mtagB blksz m k thread step)

/-- The compact tile that a use reads. -/
def BUse.tile : BUse → Option CompactTile
  | .convert tile _ => some tile
  | .multiply _ => none
  | .multiplyCompact tile => some tile

/-- The offsets that a thread halves: that of every panel, and that of every
tile in its panel. -/
def frameHalves (mtagB : MtagB) (blksz : DlpGemmBlockSize) (m n k : Nat)
    (thread : DlpGemmThrinfo) : List Nat :=
  (frameSteps blksz n thread).flatMap fun step =>
    (pcLoop k blksz.KC k 0).flatMap fun row =>
      panelNibbles k step row ::
        ((panelUses mtagB blksz m k thread step row).filterMap
          BUse.tile).map CompactTile.tileNibbles

/-! ## The conversion buffers -/

/-- The thread with work id `ic` in the group of a thread. -/
def mate (thread : DlpGemmThrinfo) (ic : Nat) : DlpGemmThrinfo :=
  { thread with tid := thread.icWays * (thread.tid / thread.icWays) + ic }

/-- The elements for which the private buffer, or the one of the chief, is
allocated. -/
def memBSizeReq (mtagB : MtagB) (blksz : DlpGemmBlockSize) (n k : Nat)
    (thread : DlpGemmThrinfo) : Nat :=
  match mtagB with
  | .packNr => blksz.KC * blksz.NR
  | .packKc =>
      match frameSteps blksz n (mate thread 0), pcLoop k blksz.KC k 0 with
      | step :: _, row :: _ =>
          let jcEnd := (gemmJcRange (mate thread 0) n blksz.NR).2
          dlpMakeMultipleOfN (min (jcEnd - step.jc) blksz.NC) 16 *
            updatedRows row.width
      | _, _ => 0
  | .unpacked => 0

/-- A use writes or reads an element of the conversion buffer; a tile occupies
its padded columns and rows. -/
def BUse.Touches (use : BUse) (index : Nat) : Prop :=
  match use with
  | .convert tile dst =>
      dst ≤ index ∧
        index < dst + dlpReorderPanelElems tile.width tile.kc0 16 2
  | .multiply strip =>
      strip.bUse ≤ index ∧
        index < strip.bUse + dlpReorderPanelElems strip.nr0 strip.kc0 16 2
  | .multiplyCompact _ => False

/-! ## What the frame relies on -/

/-- Where the chunk rule puts an element of a tile of `width` columns. -/
def tileElement (blksz : DlpGemmBlockSize) (width kc0 kr col : Nat) : Nat :=
  let start := chunkStart width blksz.NR 16 col
  start * roundUp kc0 2 +
    dlpReorderElemOffset kr (col - start) (chunkSlot width blksz.NR 16 col) 2

/-- The tile in the buffer `image` holds its rows and columns of `b`. -/
def CompactTile.Holds (tile : CompactTile) (blksz : DlpGemmBlockSize)
    (rsB csB : Nat) (b image : Bytes) : Prop :=
  ∀ kr col, kr < tile.kc0 → col < tile.width →
    nibbleAt image
        (2 * tile.src + tileElement blksz tile.width tile.kc0 kr col) =
      nibbleAt b
        ((tile.pc + kr) * rsB + (tile.jc + tile.jr + col) * csB)

/-- A conversion to `dst` puts the elements of a strip where the kernel reads
them. -/
structure Supplies (blksz : DlpGemmBlockSize) (tile : CompactTile)
    (dst : Nat) (strip : KernelStrip) : Prop where
  jc : tile.jc = strip.jc
  pc : tile.pc = strip.pc
  kc0 : tile.kc0 = strip.kc0
  element : ∀ kr col, kr < strip.kc0 → col < strip.nr0 →
    ∃ own, own < tile.width ∧ tile.jr + own = strip.jr + col ∧
      dst + tileElement blksz tile.width tile.kc0 kr own =
        strip.bUse + tileElement blksz strip.nr0 strip.kc0 kr col

/--
The nibble addresses are exact: all halved offsets are even, every tile that
the frame reads holds the matrix that was reordered, whatever the orders, the
threads and the buffers, every strip was converted by a thread of the group,
the conversion buffers are large enough, and a tile's coordinates are its
first row and column.

The reorder asks for `ways` threads and gets `team`.
-/
structure NibblesExact (blksz : DlpGemmBlockSize)
    (n k rsB csB ways team : Nat) : Prop where
  reorderEven : ∀ offset,
    offset ∈ reorderHalves blksz n k rsB csB ways team → 2 ∣ offset
  frameEven : ∀ mtagB m thread offset, 0 < thread.icWays →
    offset ∈ frameHalves mtagB blksz m n k thread → 2 ∣ offset
  tiles : ∀ (walk : TunedOrder blksz n k ways team) (b packed : Bytes)
      mtagB m thread, 0 < thread.icWays →
    ∀ use tile, use ∈ dlpGemmRowvarBf16s4f32of32 mtagB blksz m n k thread →
      use.tile = some tile →
      tile.Holds blksz rsB csB b
        (dlpReorderbNr64Bf16s4f32of32 rsB csB walk b packed)
  strips : ∀ mtagB m thread strip, 0 < thread.icWays →
    .multiply strip ∈
      dlpGemmRowvarBf16s4f32of32 mtagB blksz m n k thread →
    ∃ ic tile dst, ic < thread.icWays ∧
      (mtagB = .packNr → mate thread ic = thread) ∧
      .convert tile dst ∈ dlpGemmRowvarBf16s4f32of32 mtagB blksz m n k
        (mate thread ic) ∧
      Supplies blksz tile dst strip
  buffers : ∀ mtagB m thread use index, 0 < thread.icWays →
    use ∈ dlpGemmRowvarBf16s4f32of32 mtagB blksz m n k thread →
    use.Touches index → index < memBSizeReq mtagB blksz n k thread
  coordinates : ∀ mtagB m thread use tile, 0 < thread.icWays →
    use ∈ dlpGemmRowvarBf16s4f32of32 mtagB blksz m n k thread →
    use.tile = some tile →
    tile.preOpBI = tile.pc ∧ tile.preOpBJ = tile.jc + tile.jr

/-! ## The uses of a panel -/

section Panel

variable {blksz : DlpGemmBlockSize} {m n k : Nat} {mtagB : MtagB}
    {thread : DlpGemmThrinfo} {step : JcStep} {row : Piece}

theorem mem_frame_iff {use : BUse} :
    use ∈ dlpGemmRowvarBf16s4f32of32 mtagB blksz m n k thread ↔
      ∃ step row, step ∈ frameSteps blksz n thread ∧
        row ∈ pcLoop k blksz.KC k 0 ∧
        use ∈ panelUses mtagB blksz m k thread step row := by
  simp only [dlpGemmRowvarBf16s4f32of32, List.mem_flatMap]
  constructor
  · rintro ⟨step, inSteps, row, inRows, inPanel⟩
    exact ⟨step, row, inSteps, inRows, inPanel⟩
  · rintro ⟨step, row, inSteps, inRows, inPanel⟩
    exact ⟨step, inSteps, row, inRows, inPanel⟩

/-- A use of a panel: the part that a thread converts for its group, or one of
the uses of a strip. -/
inductive PanelUse (mtagB : MtagB) (blksz : DlpGemmBlockSize) (m k : Nat)
    (thread : DlpGemmThrinfo) (step : JcStep) (row : Piece) :
    BUse → Prop where
  | part : mtagB = .packKc →
      (packRange blksz thread step.nc0).1 <
        (packRange blksz thread step.nc0).2 →
      PanelUse mtagB blksz m k thread step row
        (.convert
          (compactTile k step row (packRange blksz thread step.nc0).1
            ((packRange blksz thread step.nc0).2 -
              (packRange blksz thread step.nc0).1))
          ((packRange blksz thread step.nc0).1 * updatedRows row.width))
  | strip {jr : Piece} {use : BUse} :
      jr ∈ pcLoop step.nc0 blksz.NR step.nc0 0 →
      use ∈ stripUses mtagB k step row jr →
      (∀ other, other ∈ stripUses mtagB k step row jr →
        other ∈ panelUses mtagB blksz m k thread step row) →
      PanelUse mtagB blksz m k thread step row use

theorem panelUse_of_mem {use : BUse}
    (member : use ∈ panelUses mtagB blksz m k thread step row) :
    PanelUse mtagB blksz m k thread step row use := by
  rcases List.mem_append.mp member with inPart | inLoops
  · split at inPart
    next tag =>
      unfold convertPart at inPart
      dsimp only at inPart
      split at inPart
      next nonempty =>
        rw [List.mem_singleton.mp inPart]
        exact .part tag nonempty.1
      next => cases inPart
    next => cases inPart
  · rcases List.mem_flatMap.mp inLoops with ⟨ic, inIc, inStrips⟩
    rcases List.mem_flatMap.mp inStrips with ⟨jr, inLoop, inStrip⟩
    refine .strip inLoop inStrip fun other inBody => ?_
    exact List.mem_append_right _ (List.mem_flatMap.mpr
      ⟨ic, inIc, List.mem_flatMap.mpr ⟨jr, inLoop, inBody⟩⟩)

/-- The range that a thread converts for its group is made of whole micro
panels. -/
theorem packRange_part (grouped : 0 < thread.icWays) (nc0 : Nat) :
    Part blksz.NR nc0 (packRange blksz thread nc0) := by
  have valid : thread.tid % thread.icWays < thread.icWays :=
    Nat.mod_lt _ grouped
  have range := dlpThreadTaskRange_highEdge
    (dlpGemmGenDlpTaskIds (some thread)).2 nc0 blksz.NR valid
  rw [packRange, range]
  exact ⟨highEdgeCut_dvd nc0 blksz.NR valid,
    highEdgeCut_ends nc0 blksz.NR valid⟩

/-- Columns of a panel that start at a micro panel. -/
structure PanelPart (blksz : DlpGemmBlockSize) (nc0 start width : Nat) :
    Prop where
  aligned : blksz.NR ∣ start
  nonempty : 0 < width
  ends : start + width = nc0 ∨ (blksz.NR ∣ start + width ∧ start + width ≤ nc0)

theorem PanelPart.fits {nc0 start width : Nat}
    (part : PanelPart blksz nc0 start width) : start + width ≤ nc0 := by
  rcases part.ends with last | inner
  · exact last.le
  · exact inner.2

theorem panelPart_of_range {nc0 : Nat} {range : Nat × Nat}
    (part : Part blksz.NR nc0 range) (nonempty : range.1 < range.2) :
    PanelPart blksz nc0 range.1 (range.2 - range.1) := by
  refine ⟨part.start_dvd, Nat.sub_pos_of_lt nonempty, ?_⟩
  rw [Nat.add_sub_of_le nonempty.le]
  exact part.ends

theorem panelPart_of_strip (positive : 0 < blksz.NR) {nc0 : Nat} {jr : Piece}
    (member : jr ∈ pcLoop nc0 blksz.NR nc0 0) :
    PanelPart blksz nc0 jr.start jr.width := by
  rcases pcLoop_mem (dvd_zero blksz.NR) member with ⟨aligned, inside, width⟩
  refine ⟨aligned, by omega, ?_⟩
  rcases Nat.le_total (nc0 - jr.start) blksz.NR with last | inner
  · exact Or.inl (by omega)
  · rw [width, min_eq_right inner]
    exact Or.inr ⟨Nat.dvd_add aligned dvd_rfl, by omega⟩

/-- The tile of a use is a part of the panel. -/
theorem PanelUse.exists_part (positive : 0 < blksz.NR)
    (grouped : 0 < thread.icWays) {use : BUse} {tile : CompactTile}
    (ofPanel : PanelUse mtagB blksz m k thread step row use)
    (reads : use.tile = some tile) :
    ∃ jr width, PanelPart blksz step.nc0 jr width ∧
      tile = compactTile k step row jr width := by
  cases ofPanel with
  | part tag nonempty =>
      exact ⟨_, _, panelPart_of_range (packRange_part grouped step.nc0)
        nonempty, (Option.some.inj reads).symm⟩
  | @strip jr use inLoop inStrip _ =>
      refine ⟨jr.start, jr.width, panelPart_of_strip positive inLoop, ?_⟩
      cases mtagB with
      | packKc =>
          rw [List.mem_singleton.mp inStrip] at reads
          cases reads
      | packNr =>
          rcases List.mem_cons.mp inStrip with rfl | inRest
          · exact (Option.some.inj reads).symm
          · rw [List.mem_singleton.mp inRest] at reads
            cases reads
      | unpacked =>
          rw [List.mem_singleton.mp inStrip] at reads
          exact (Option.some.inj reads).symm

end Panel

/-! ## The tiles that the frame reads -/

section Tiles

variable {blksz : DlpGemmBlockSize} {m n k rsB csB : Nat} {mtagB : MtagB}
    {thread : DlpGemmThrinfo} {step : JcStep} {row : Piece}

theorem panelNibbles_eq (step : JcStep) (row : Piece) :
    panelNibbles k step row = (tileAt (bf16Blocks blksz) k step row).off := by
  rw [← tunedTile_eq]
  rfl

/-- A panel of the frame is a tile of the image. -/
theorem panel_placed (legal : (bf16Blocks blksz).Legal)
    (inSteps : step ∈ frameSteps blksz n thread)
    (inRows : row ∈ pcLoop k blksz.KC k 0) :
    (tileAt (bf16Blocks blksz) k step row).Placed legal n k := by
  have member : tileAt (bf16Blocks blksz) k step row ∈
      rangeTiles (bf16Blocks blksz) n k (gemmJcRange thread n blksz.NR) :=
    List.mem_flatMap.mpr ⟨step, inSteps, List.mem_map_of_mem inRows⟩
  rcases gemmJcRange_aligned thread n blksz.NR with
    empty | ⟨aligned, bounded, ends⟩
  · unfold frameSteps at inSteps
    rw [jcLoop_eq_nil n blksz.NC _ _ empty.ge] at inSteps
    cases inSteps
  · exact rangeTiles_placed legal aligned bounded ends member

/-- The columns of a part of a panel, as a tile of the image. -/
def partTile (blksz : DlpGemmBlockSize) (k : Nat) (step : JcStep)
    (row : Piece) (jr width : Nat) : Tile :=
  (tileAt (bf16Blocks blksz) k step row).slice (bf16Blocks blksz) jr
    (jr + width)

theorem partTile_placed {legal : (bf16Blocks blksz).Legal} {jr width : Nat}
    (placed : (tileAt (bf16Blocks blksz) k step row).Placed legal n k)
    (part : PanelPart blksz step.nc0 jr width) :
    (partTile blksz k step row jr width).Placed legal n k := by
  apply placed.slice part.aligned (Nat.lt_add_of_pos_right part.nonempty)
  exact part.ends

theorem even_updatedRows (rows : Nat) : 2 ∣ updatedRows rows := by
  rw [updatedRows_eq, dlpReorderRoundUp_eq Nat.two_pos]
  exact dvd_roundUp rows 2

/-- The two halves add up to the half of the offset in the image. -/
theorem compactTile_src {legal : (bf16Blocks blksz).Legal}
    (placed : (tileAt (bf16Blocks blksz) k step row).Placed legal n k)
    (jr width : Nat) :
    2 * (compactTile k step row jr width).src =
      (partTile blksz k step row jr width).off := by
  have panel : 2 ∣ panelNibbles k step row := by
    rw [@panelNibbles_eq blksz]
    exact even_off placed
  have inPanel : 2 ∣ jr * updatedRows row.width :=
    (even_updatedRows row.width).mul_left jr
  change 2 * (panelNibbles k step row / 2 + jr * updatedRows row.width / 2) =
    (tileAt (bf16Blocks blksz) k step row).off +
      jr * dlpReorderRoundUp row.width 2
  rw [Nat.mul_add, Nat.mul_div_cancel' panel, Nat.mul_div_cancel' inPanel,
    @panelNibbles_eq blksz, updatedRows_eq]

/-- An element of a part has the slot of its row and column. -/
theorem partTile_element {legal : (bf16Blocks blksz).Legal}
    {jr width kr col : Nat}
    (placed : (tileAt (bf16Blocks blksz) k step row).Placed legal n k)
    (part : PanelPart blksz step.nc0 jr width) (inRows : kr < row.width)
    (inPart : col < width) :
    (partTile blksz k step row jr width).off +
        tileElement blksz width row.width kr col =
      slotOf legal n k (row.start + kr) (step.jc + jr + col) := by
  have live : (partTile blksz k step row jr width).nc0 = width :=
    Nat.add_sub_cancel_left jr width
  have slot := @slotOf_eq_tile_offset (bf16Blocks blksz) n k legal _
    (partTile_placed placed part) kr col inRows (live.symm ▸ inPart)
  rw [live] at slot
  exact slot

/-- Every halved offset of the frame is even. -/
theorem frameHalves_even (legal : (bf16Blocks blksz).Legal)
    (grouped : 0 < thread.icWays) {offset : Nat}
    (member : offset ∈ frameHalves mtagB blksz m n k thread) :
    2 ∣ offset := by
  rcases List.mem_flatMap.mp member with ⟨step, inSteps, inPanels⟩
  rcases List.mem_flatMap.mp inPanels with ⟨row, inRows, inPanel⟩
  have placed := panel_placed legal inSteps inRows
  rcases List.mem_cons.mp inPanel with rfl | inTiles
  · rw [@panelNibbles_eq blksz]
    exact even_off placed
  · rcases List.mem_map.mp inTiles with ⟨tile, inUses, rfl⟩
    rcases List.mem_filterMap.mp inUses with ⟨use, inPanel, reads⟩
    rcases (panelUse_of_mem inPanel).exists_part legal.widths.NR_pos grouped
      reads with ⟨jr, width, _, rfl⟩
    exact (even_updatedRows row.width).mul_left jr

/-- A tile of the frame holds the matrix that covering threads reordered. -/
theorem compactTile_holds {ways team : Nat}
    (legal : (bf16Blocks blksz).Legal) (delivered : 0 < team)
    (atMost : team ≤ ways) (covers : Covers blksz.NR n ways team)
    (walk : TunedOrder blksz n k ways team) (b packed : Bytes)
    (grouped : 0 < thread.icWays) {use : BUse} {tile : CompactTile}
    (member : use ∈ dlpGemmRowvarBf16s4f32of32 mtagB blksz m n k thread)
    (reads : use.tile = some tile) :
    tile.Holds blksz rsB csB b
      (dlpReorderbNr64Bf16s4f32of32 rsB csB walk b packed) := by
  rcases mem_frame_iff.mp member with ⟨step, row, inSteps, inRows, inPanel⟩
  have placed := panel_placed legal inSteps inRows
  rcases (panelUse_of_mem inPanel).exists_part legal.widths.NR_pos grouped
    reads with ⟨jr, width, part, rfl⟩
  intro kr col inTile inPart
  have placedPart := partTile_placed placed part
  have window : InWindow (partTile blksz k step row jr width)
      (row.start + kr) (step.jc + jr + col) := by
    refine ⟨⟨Nat.le_add_right _ _, Nat.add_lt_add_left inTile _⟩,
      Nat.le_add_right _ _, Nat.add_lt_add_left ?_ _⟩
    exact inPart.trans_eq (Nat.add_sub_cancel_left jr width).symm
  rw [compactTile_src placed jr width]
  change nibbleAt _ ((partTile blksz k step row jr width).off +
    tileElement blksz width row.width kr col) = _
  rw [partTile_element placed part inTile inPart]
  exact reorderb_at_nibble legal delivered atMost covers walk b packed
    (row_lt_of_window placedPart window)
    (column_lt_of_window placedPart window)

/-- The coordinates of a tile are its first row and column. -/
theorem compactTile_coordinates (legal : (bf16Blocks blksz).Legal)
    (grouped : 0 < thread.icWays) {use : BUse} {tile : CompactTile}
    (member : use ∈ dlpGemmRowvarBf16s4f32of32 mtagB blksz m n k thread)
    (reads : use.tile = some tile) :
    tile.preOpBI = tile.pc ∧ tile.preOpBJ = tile.jc + tile.jr := by
  rcases mem_frame_iff.mp member with ⟨step, row, inSteps, inRows, inPanel⟩
  rcases (panelUse_of_mem inPanel).exists_part legal.widths.NR_pos grouped
    reads with ⟨jr, width, _, rfl⟩
  have inside := (jcLoop_mem legal.NC_pos (one_dvd _) (one_dvd _) inSteps).2
  have split : step.jcCurLoop + step.jcCurLoopRem = step.jc := by
    rw [inside.start, inside.rem]
    exact Nat.add_sub_of_le (blockStart_le _ _)
  refine ⟨rfl, ?_⟩
  change step.jcCurLoop + step.jcCurLoopRem + jr = step.jc + jr
  rw [split]

end Tiles

/-! ## The strips of a converted panel -/

section Strips

variable {blksz : DlpGemmBlockSize} {m n k : Nat} {mtagB : MtagB}
    {thread : DlpGemmThrinfo} {step : JcStep} {row : Piece}

/-- The row work id and the column work id of a thread of the group. -/
theorem mate_taskIds {ic : Nat} (valid : ic < thread.icWays) :
    (dlpGemmGenDlpTaskIds (some (mate thread ic))).1.workId =
        thread.tid / thread.icWays ∧
      (dlpGemmGenDlpTaskIds (some (mate thread ic))).2.workId = ic := by
  have positive : 0 < thread.icWays := Nat.zero_lt_of_lt valid
  constructor
  · change (thread.icWays * (thread.tid / thread.icWays) + ic) /
      thread.icWays = _
    rw [Nat.mul_add_div positive, Nat.div_eq_of_lt valid, Nat.add_zero]
  · change (thread.icWays * (thread.tid / thread.icWays) + ic) %
      thread.icWays = _
    rw [Nat.mul_add_mod, Nat.mod_eq_of_lt valid]

/-- A group shares its columns. -/
theorem gemmJcRange_mate {ic : Nat} (valid : ic < thread.icWays)
    (n NR : Nat) :
    gemmJcRange (mate thread ic) n NR = gemmJcRange thread n NR := by
  have same := (mate_taskIds valid).1
  change (thread.icWays * (thread.tid / thread.icWays) + ic) /
    thread.icWays = _ at same
  change dlpThreadTaskRange ⟨_, thread.jcWays,
      (thread.icWays * (thread.tid / thread.icWays) + ic) / thread.icWays⟩ n
      NR false =
    dlpThreadTaskRange ⟨_, thread.jcWays, thread.tid / thread.icWays⟩ n NR
      false
  rw [same]
  rfl

theorem frameSteps_mate {ic : Nat} (valid : ic < thread.icWays) :
    frameSteps blksz n (mate thread ic) = frameSteps blksz n thread := by
  unfold frameSteps
  rw [gemmJcRange_mate valid]

/-- The converted range of a thread of the group that holds a column. -/
theorem exists_packRange (grouped : 0 < thread.icWays) {nc0 jr : Nat}
    (inside : jr < nc0) :
    ∃ ic, ic < thread.icWays ∧
      InRange (packRange blksz (mate thread ic) nc0) jr := by
  rcases existsUnique_workId blksz.NR (fun work => work) grouped inside with
    ⟨ic, ⟨valid, inRange⟩, -⟩
  refine ⟨ic, valid, ?_⟩
  have work := (mate_taskIds valid).2
  change (thread.icWays * (thread.tid / thread.icWays) + ic) %
    thread.icWays = ic at work
  change InRange (dlpThreadTaskRange
    ⟨(thread.icWays * (thread.tid / thread.icWays) + ic) % thread.icWays,
      thread.icWays,
      (thread.icWays * (thread.tid / thread.icWays) + ic) % thread.icWays⟩
    nc0 blksz.NR false) jr
  rw [work]
  exact inRange

/-- Parts of a panel agree on where an element lies in the panel. -/
theorem tileElement_eq {legal : (bf16Blocks blksz).Legal}
    {start width jr nr0 kr own col : Nat}
    (placed : (tileAt (bf16Blocks blksz) k step row).Placed legal n k)
    (part : PanelPart blksz step.nc0 start width)
    (strip : PanelPart blksz step.nc0 jr nr0) (inRows : kr < row.width)
    (inPart : own < width) (inStrip : col < nr0)
    (same : start + own = jr + col) :
    start * updatedRows row.width +
        tileElement blksz width row.width kr own =
      jr * updatedRows row.width +
        tileElement blksz nr0 row.width kr col := by
  have left := partTile_element placed part inRows inPart
  have right := partTile_element placed strip inRows inStrip
  rw [Nat.add_assoc, same, ← Nat.add_assoc] at left
  have equal := left.trans right.symm
  change (tileAt (bf16Blocks blksz) k step row).off +
      start * dlpReorderRoundUp row.width 2 + _ =
    (tileAt (bf16Blocks blksz) k step row).off +
      jr * dlpReorderRoundUp row.width 2 + _ at equal
  rw [Nat.add_assoc, Nat.add_assoc, ← updatedRows_eq] at equal
  exact Nat.add_left_cancel equal

/-- With `PACK_KC` some thread of the group converts the part that holds a
strip. -/
theorem exists_part_supplies (legal : (bf16Blocks blksz).Legal)
    (grouped : 0 < thread.icWays)
    (placed : (tileAt (bf16Blocks blksz) k step row).Placed legal n k)
    {jr : Piece} (inLoop : jr ∈ pcLoop step.nc0 blksz.NR step.nc0 0) :
    ∃ ic, ic < thread.icWays ∧
      let packb := packRange blksz (mate thread ic) step.nc0
      .convert (compactTile k step row packb.1 (packb.2 - packb.1))
          (packb.1 * updatedRows row.width) ∈
        panelUses .packKc blksz m k (mate thread ic) step row ∧
      Supplies blksz
        (compactTile k step row packb.1 (packb.2 - packb.1))
        (packb.1 * updatedRows row.width)
        ⟨step.jc, jr.start, row.start, jr.width, row.width,
          jr.start * updatedRows row.width⟩ := by
  have strip := pcLoop_mem (dvd_zero blksz.NR) inLoop
  rcases exists_packRange grouped strip.2.1 with ⟨ic, valid, inRange⟩
  have range : Part blksz.NR step.nc0
      (packRange blksz (mate thread ic) step.nc0) :=
    @packRange_part blksz (mate thread ic) grouped step.nc0
  have holds := range.holds_strip strip.1 inRange
  rw [← strip.2.2] at holds
  have nonempty := inRange.1.trans_lt inRange.2
  refine ⟨ic, valid, ?_, rfl, rfl, rfl, ?_⟩
  · apply List.mem_append_left
    rw [if_pos rfl]
    unfold convertPart
    dsimp only
    have inside := inRange.1.trans_lt strip.2.1
    rw [if_pos ⟨nonempty, inside.trans_le (Nat.le_add_left _ _)⟩]
    exact List.mem_singleton_self _
  · intro kr col inRow inWidth
    change col < jr.width at inWidth
    rcases Nat.exists_eq_add_of_le inRange.1 with ⟨before, start⟩
    have inPart : before + col <
        (packRange blksz (mate thread ic) step.nc0).2 -
          (packRange blksz (mate thread ic) step.nc0).1 := by omega
    have same : (packRange blksz (mate thread ic) step.nc0).1 +
        (before + col) = jr.start + col := by
      rw [start, Nat.add_assoc]
    exact ⟨before + col, inPart, same,
      tileElement_eq placed (panelPart_of_range range nonempty)
        (panelPart_of_strip legal.widths.NR_pos inLoop) inRow inPart inWidth
        same⟩

/-- Every strip of a kernel was converted by a thread of the group. -/
theorem exists_supplies (legal : (bf16Blocks blksz).Legal)
    (grouped : 0 < thread.icWays) {strip : KernelStrip}
    (member : .multiply strip ∈
      dlpGemmRowvarBf16s4f32of32 mtagB blksz m n k thread) :
    ∃ ic tile dst, ic < thread.icWays ∧
      (mtagB = .packNr → mate thread ic = thread) ∧
      .convert tile dst ∈ dlpGemmRowvarBf16s4f32of32 mtagB blksz m n k
        (mate thread ic) ∧
      Supplies blksz tile dst strip := by
  rcases mem_frame_iff.mp member with ⟨step, row, inSteps, inRows, inPanel⟩
  have placed := panel_placed legal inSteps inRows
  cases panelUse_of_mem inPanel with
  | @strip jr _ inLoop inStrip siblings =>
      have stripPart := panelPart_of_strip legal.widths.NR_pos inLoop
      cases mtagB with
      | unpacked => cases List.mem_singleton.mp inStrip
      | packNr =>
          have self : mate thread (thread.tid % thread.icWays) = thread := by
            unfold mate
            rw [Nat.div_add_mod]
          have body : BUse.multiply strip = .multiply
              ⟨step.jc, jr.start, row.start, jr.width, row.width, 0⟩ := by
            rcases List.mem_cons.mp inStrip with absurd | inRest
            · cases absurd
            · exact List.mem_singleton.mp inRest
          cases body
          refine ⟨thread.tid % thread.icWays,
            compactTile k step row jr.start jr.width, 0,
            Nat.mod_lt _ grouped, fun _ => self, ?_, rfl, rfl, rfl, ?_⟩
          · rw [self]
            exact mem_frame_iff.mpr ⟨step, row, inSteps, inRows,
              siblings _ List.mem_cons_self⟩
          · intro kr col _ inWidth
            exact ⟨col, inWidth, rfl, rfl⟩
      | packKc =>
          cases List.mem_singleton.mp inStrip
          rcases exists_part_supplies legal grouped placed inLoop with
            ⟨ic, valid, converted, supplies⟩
          refine ⟨ic, _, _, valid, fun other => MtagB.noConfusion other, ?_,
            supplies⟩
          exact mem_frame_iff.mpr ⟨step, row,
            (frameSteps_mate valid).symm ▸ inSteps, inRows, converted⟩

end Strips

/-! ## The conversion buffers are large enough -/

section Buffers

variable {blksz : DlpGemmBlockSize} {m n k : Nat} {mtagB : MtagB}
    {thread : DlpGemmThrinfo} {step : JcStep} {row : Piece}

theorem panelElems_eq (width kc0 : Nat) :
    dlpReorderPanelElems width kc0 16 2 =
      dlpMakeMultipleOfN width 16 * updatedRows kc0 := by
  rw [updatedRows_eq]
  rfl

theorem updatedRows_le {rows bound : Nat} (atMost : rows ≤ bound) :
    updatedRows rows ≤ updatedRows bound := by
  simp only [updatedRows_eq, dlpReorderRoundUp_eq Nat.two_pos]
  exact roundUp_le_of_dvd Nat.two_pos (dvd_roundUp bound 2)
    (atMost.trans (le_roundUp Nat.two_pos bound))

theorem updatedRows_of_even {rows : Nat} (even : 2 ∣ rows) :
    updatedRows rows = rows := by
  rw [updatedRows_eq, dlpReorderRoundUp_eq Nat.two_pos,
    roundUp_of_dvd Nat.two_pos even]

/-- A part of a panel ends inside the padded panel. -/
theorem part_extent (wide : 16 ∣ blksz.NR) {nc0 start width : Nat}
    (part : PanelPart blksz nc0 start width) (kc0 : Nat) :
    start * updatedRows kc0 + dlpReorderPanelElems width kc0 16 2 ≤
      dlpMakeMultipleOfN nc0 16 * updatedRows kc0 := by
  rw [panelElems_eq, ← Nat.add_mul]
  exact Nat.mul_le_mul_right _
    (paddedPart_le (wide.trans part.aligned) part.fits)

/-- A micro panel fills no more than the private buffer. -/
theorem strip_extent (wide : 16 ∣ blksz.NR) (even : 2 ∣ blksz.KC)
    {width kc0 : Nat} (narrow : width ≤ blksz.NR) (low : kc0 ≤ blksz.KC) :
    dlpReorderPanelElems width kc0 16 2 ≤ blksz.KC * blksz.NR := by
  rw [panelElems_eq, Nat.mul_comm]
  exact Nat.mul_le_mul
    ((updatedRows_le low).trans_eq (updatedRows_of_even even))
    (roundUp_le_of_dvd (Nat.succ_pos 15) wide narrow)

/-- A use touches a part of the panel from the part's own start, or a strip
from the start of the private buffer. -/
theorem PanelUse.exists_extent (positive : 0 < blksz.NR)
    (grouped : 0 < thread.icWays) {use : BUse} {index : Nat}
    (ofPanel : PanelUse mtagB blksz m k thread step row use)
    (touches : use.Touches index) :
    ∃ start width, PanelPart blksz step.nc0 start width ∧
      ((mtagB = .packKc ∧
          index < start * updatedRows row.width +
            dlpReorderPanelElems width row.width 16 2) ∨
        (mtagB = .packNr ∧ width ≤ blksz.NR ∧
          index < dlpReorderPanelElems width row.width 16 2)) := by
  cases ofPanel with
  | part tag nonempty =>
      exact ⟨_, _, panelPart_of_range (packRange_part grouped step.nc0)
        nonempty, Or.inl ⟨tag, touches.2⟩⟩
  | @strip jr use inLoop inStrip _ =>
      have narrow : jr.width ≤ blksz.NR :=
        (pcLoop_bounds inLoop).2.2.trans_le (min_le_right _ _)
      refine ⟨jr.start, jr.width, panelPart_of_strip positive inLoop, ?_⟩
      cases mtagB with
      | packKc =>
          rw [List.mem_singleton.mp inStrip] at touches
          exact Or.inl ⟨rfl, touches.2⟩
      | packNr =>
          refine Or.inr ⟨rfl, narrow, ?_⟩
          rcases List.mem_cons.mp inStrip with rfl | inRest
          · exact touches.2.trans_eq (Nat.zero_add _)
          · rw [List.mem_singleton.mp inRest] at touches
            exact touches.2.trans_eq (Nat.zero_add _)
      | unpacked =>
          rw [List.mem_singleton.mp inStrip] at touches
          exact touches.elim

/-- The chief allocates for the widest panel and the tallest block. -/
theorem memBSizeReq_packKc (legal : (bf16Blocks blksz).Legal)
    (grouped : 0 < thread.icWays)
    (inSteps : step ∈ frameSteps blksz n thread)
    (inRows : row ∈ pcLoop k blksz.KC k 0) :
    dlpMakeMultipleOfN step.nc0 16 * updatedRows row.width ≤
      memBSizeReq .packKc blksz n k thread := by
  have piece : step.piece ∈ jcSteps true n blksz.NC
      dlpGetPackbBf16bf16f32of32MinNR (gemmJcRange thread n blksz.NR) :=
    List.mem_map_of_mem inSteps
  have ncPositive : 0 < blksz.NC := legal.NC_pos
  have bounds := jcSteps_bounds ncPositive piece
  have rowBounds := pcLoop_bounds inRows
  unfold memBSizeReq
  rw [frameSteps_mate grouped, gemmJcRange_mate grouped]
  cases columns : frameSteps blksz n thread with
  | nil =>
      rw [columns] at inSteps
      cases inSteps
  | cons firstStep laterSteps =>
      cases rows : pcLoop k blksz.KC k 0 with
      | nil =>
          rw [rows] at inRows
          cases inRows
      | cons firstRow laterRows =>
          have listed : jcSteps true n blksz.NC
              dlpGetPackbBf16bf16f32of32MinNR
              (gemmJcRange thread n blksz.NR) =
                firstStep.piece :: laterSteps.map JcStep.piece := by
            change (frameSteps blksz n thread).map JcStep.piece = _
            rw [columns, List.map_cons]
          have start : firstStep.jc = (gemmJcRange thread n blksz.NR).1 :=
            jcSteps_first listed
          dsimp only
          rw [start, pcLoop_head rows]
          apply Nat.mul_le_mul
          · have narrow : step.nc0 ≤
                min ((gemmJcRange thread n blksz.NR).2 -
                  (gemmJcRange thread n blksz.NR).1) blksz.NC := by
              change _ ≤ step.jc ∧ 0 < step.nc0 ∧
                step.jc + step.nc0 ≤ _ ∧ step.nc0 ≤ _ at bounds
              omega
            exact roundUp_le_of_dvd (Nat.succ_pos 15) (dvd_roundUp _ 16)
              (narrow.trans (le_roundUp (Nat.succ_pos 15) _))
          · apply updatedRows_le
            dsimp only
            omega

/-- Every element of a conversion buffer that a thread touches was
allocated. -/
theorem touches_lt (legal : (bf16Blocks blksz).Legal)
    (grouped : 0 < thread.icWays) {use : BUse} {index : Nat}
    (member : use ∈ dlpGemmRowvarBf16s4f32of32 mtagB blksz m n k thread)
    (touches : use.Touches index) :
    index < memBSizeReq mtagB blksz n k thread := by
  rcases mem_frame_iff.mp member with ⟨step, row, inSteps, inRows, inPanel⟩
  have wide : 16 ∣ blksz.NR := legal.widths.divides
  rcases (panelUse_of_mem inPanel).exists_extent legal.widths.NR_pos grouped
    touches with ⟨start, width, part, extent⟩
  rcases extent with ⟨rfl, below⟩ | ⟨rfl, narrow, below⟩
  · exact below.trans_le ((part_extent wide part row.width).trans
      (memBSizeReq_packKc legal grouped inSteps inRows))
  · have low : row.width ≤ blksz.KC :=
      (pcLoop_bounds inRows).2.2.trans_le (min_le_right _ _)
    exact below.trans_le (strip_extent wide legal.kFactor_dvd narrow low)

end Buffers

/-! ## Which teams are large enough -/

section Team

variable {blksz : DlpGemmBlockSize} {n k rsB csB ways team : Nat}

/-- Covering threads make the addresses exact. -/
theorem nibblesExact_of_covers (legal : (bf16Blocks blksz).Legal)
    (delivered : 0 < team) (atMost : team ≤ ways)
    (covers : Covers blksz.NR n ways team) :
    NibblesExact blksz n k rsB csB ways team where
  reorderEven := fun _ member => reorderHalves_even legal atMost member
  frameEven := fun _ _ _ _ grouped member =>
    frameHalves_even legal grouped member
  tiles := fun walk b packed _ _ _ grouped _ _ member reads =>
    compactTile_holds legal delivered atMost covers walk b packed grouped
      member reads
  strips := fun _ _ _ _ grouped member =>
    exists_supplies legal grouped member
  buffers := fun _ _ _ _ _ grouped member touches =>
    touches_lt legal grouped member touches
  coordinates := fun _ _ _ _ _ grouped member reads =>
    compactTile_coordinates legal grouped member reads

/-- The only thread of a GEMM. -/
def soloThread : DlpGemmThrinfo :=
  ⟨1, 0, 1, 1⟩

/-- A single thread without a conversion buffer reads every element at its
slot. -/
theorem exists_tile_at (legal : (bf16Blocks blksz).Legal) {p j : Nat}
    (inRows : p < k) (inColumns : j < n) :
    ∃ use tile kr col,
      use ∈ dlpGemmRowvarBf16s4f32of32 .unpacked blksz 1 n k soloThread ∧
      use.tile = some tile ∧ kr < tile.kc0 ∧ col < tile.width ∧
      tile.pc + kr = p ∧ tile.jc + tile.jr + col = j ∧
      2 * tile.src + tileElement blksz tile.width tile.kc0 kr col =
        slotOf legal n k p j := by
  rcases exists_window legal Nat.one_pos inRows inColumns with
    ⟨_, inTeam, window⟩
  rcases List.mem_flatMap.mp inTeam with ⟨tid, inRange, inTiles⟩
  cases Nat.lt_one_iff.mp (List.mem_range.mp inRange)
  rcases List.mem_flatMap.mp inTiles with ⟨step, stepMember, inStep⟩
  rcases List.mem_map.mp inStep with ⟨row, rowMember, rfl⟩
  have inSteps : step ∈ frameSteps blksz n soloThread := stepMember
  have placed := panel_placed legal inSteps rowMember
  rcases Nat.exists_eq_add_of_le window.1.1 with ⟨kr, atRow⟩
  rcases Nat.exists_eq_add_of_le window.2.1 with ⟨col, atColumn⟩
  have inRow : kr < row.width := by
    have upper := window.1.2
    rw [atRow] at upper
    exact Nat.lt_of_add_lt_add_left upper
  have inPanel : col < step.nc0 := by
    have upper := window.2.2
    rw [atColumn] at upper
    exact Nat.lt_of_add_lt_add_left upper
  rcases (pcLoop_chain legal.widths.NR_pos step.nc0 (Nat.le_add_left _ _)
      (Nat.zero_le _)).exists_has (Nat.zero_le col) inPanel with
    ⟨jr, inLoop, lower, upper⟩
  rcases Nat.exists_eq_add_of_le lower with ⟨own, atOwn⟩
  have part := panelPart_of_strip legal.widths.NR_pos inLoop
  have inPart : own < jr.width := by omega
  refine ⟨.multiplyCompact (compactTile k step row jr.start jr.width), _, kr,
    own, ?_, rfl, inRow, inPart, atRow.symm, ?_, ?_⟩
  · refine mem_frame_iff.mpr ⟨step, row, inSteps, rowMember, ?_⟩
    have first : (⟨0, min 1 blksz.MC⟩ : Piece) ∈ pcLoop 1 blksz.MC 1 0 := by
      unfold pcLoop
      rw [if_pos Nat.one_pos]
      exact List.mem_cons_self
    exact List.mem_append_right _ (List.mem_flatMap.mpr ⟨_, first,
      List.mem_flatMap.mpr ⟨jr, inLoop, List.mem_singleton_self _⟩⟩)
  · change step.jc + jr.start + own = j
    rw [Nat.add_assoc, ← atOwn]
    exact atColumn.symm
  · rw [compactTile_src placed]
    change (partTile blksz k step row jr.start jr.width).off +
      tileElement blksz jr.width row.width kr own = _
    rw [partTile_element placed part inRow inPart, Nat.add_assoc, ← atOwn]
    exact congrArg₂ (slotOf legal n k) atRow.symm atColumn.symm

/-- Exact addresses need covering threads: else an element keeps the nibble
that the buffer had before. -/
theorem covers_of_nibblesExact (legal : (bf16Blocks blksz).Legal)
    (columns : 0 < n) (depth : 0 < k) (delivered : 0 < team)
    (atMost : team ≤ ways)
    (nibbles : NibblesExact blksz n k rsB csB ways team) :
    Covers blksz.NR n ways team := by
  by_contra uncovered
  rcases @exists_stale blksz n k rsB csB ways team legal columns depth
      delivered atMost uncovered with ⟨p, j, inRows, inColumns, stale⟩
  rcases exists_tile_at legal inRows inColumns with
    ⟨use, tile, kr, col, member, reads, inTile, inWidth, -, -, atSlot⟩
  have holds := nibbles.tiles (.inOrder blksz n k ways team) (fun _ => 0)
    (fun _ => 0x11) .unpacked 1 soloThread Nat.one_pos use tile member reads
    kr col inTile inWidth
  have ones : ∀ idx, nibbleAt (fun _ => 0x11) idx = 1 := by
    intro idx
    rcases Nat.mod_two_eq_zero_or_one idx with even | odd
    · rw [nibbleAt, even]
      decide
    · rw [nibbleAt, odd]
      decide
  rw [atSlot, stale, ones, nibbleAt_zero] at holds
  exact absurd holds (by decide)

end Team

/--
The nibble addresses of the int4 path are exact, for every matrix, buffer and
order of the reorder's tiles and for every thread, tag and number of rows of
the GEMM, exactly if the delivered threads of the reorder cover all columns.
-/
theorem nibblesExact_iff {blksz : DlpGemmBlockSize} {n k ways team : Nat}
    (rsB csB : Nat) (legal : (bf16Blocks blksz).Legal) (columns : 2 ≤ n)
    (depth : 2 ≤ k) (delivered : 0 < team) (atMost : team ≤ ways) :
    NibblesExact blksz n k rsB csB ways team ↔
      Covers blksz.NR n ways team :=
  ⟨covers_of_nibblesExact legal (Nat.zero_lt_of_lt columns)
      (Nat.zero_lt_of_lt depth) delivered atMost,
    nibblesExact_of_covers legal delivered atMost⟩

theorem zen4_legal :
    (bf16Blocks (dlpGemmBlkszMapZen4 .bf16s4f32of32)).Legal := by
  constructor <;> try decide
  constructor <;> decide

/-- A whole team, a fringe and an odd leading dimension. -/
theorem nibblesExact_iff_odd :
    NibblesExact (dlpGemmBlkszMapZen4 .bf16s4f32of32) 99 5 101 1 3 3 :=
  (nibblesExact_iff 101 1 zen4_legal (by decide) (by decide) (by decide)
    (by decide)).mpr (Or.inl rfl)

/-- One of two requested threads leaves the columns from 64 on unpacked. -/
theorem nibbles_lost_short_team :
    ¬ NibblesExact (dlpGemmBlkszMapZen4 .bf16s4f32of32) 128 4 128 1 2 1 := by
  intro nibbles
  have covers := covers_of_nibblesExact zen4_legal (by decide) (by decide)
    (by decide) (by decide) nibbles
  revert covers
  decide

end AoclDlp.Quant.Bf16s4Frame
