import AoclDlp.Layout.Panel
import Mathlib.Data.List.Flatten

/-!
# The tiles of a team

The reorder splits the columns among the delivered team in units of `NR` and
every thread walks its range.  Whatever the team size, the steps of all
threads form one chain of aligned column pieces from zero to `n`, so their
padded tiles partition the cells of the packed image.
-/

namespace AoclDlp.Layout.TeamTiles

open AoclDlp.Foundations.BlockedGrid
open AoclDlp.Foundations.Rounding
open AoclDlp.Foundations.Span
open AoclDlp.Layout.Chunk
open AoclDlp.Layout.Panel
open AoclDlp.Threading.TaskRange

/-- The column range of one thread of the delivered team. -/
def threadRange (blocks : Blocks) (n team tid : Nat) : Nat × Nat :=
  dlpThreadTaskRange ⟨0, team, tid⟩ n blocks.NR false

/-- The tiles of all threads of a team, thread by thread. -/
def teamTiles (blocks : Blocks) (n k team : Nat) : List Tile :=
  (List.range team).flatMap fun tid =>
    rangeTiles blocks n k (threadRange blocks n team tid)

/-- The column steps of all threads of a team, thread by thread. -/
def teamSteps (blocks : Blocks) (n team : Nat) : List JcStep :=
  (List.range team).flatMap fun tid =>
    jcLoop n blocks.NC blocks.minNR (threadRange blocks n team tid).2
      (threadRange blocks n team tid).2 (threadRange blocks n team tid).1

theorem teamTiles_eq_steps (blocks : Blocks) (n k team : Nat) :
    teamTiles blocks n k team =
      (teamSteps blocks n team).flatMap fun step =>
        (pcLoop k blocks.KC k 0).map (tileAt blocks k step) := by
  rw [teamTiles, teamSteps, List.flatMap_assoc]
  rfl

theorem tileAt_mem_teamTiles {blocks : Blocks} {n k team : Nat}
    {step : JcStep} {row : Piece} (inSteps : step ∈ teamSteps blocks n team)
    (inRows : row ∈ pcLoop k blocks.KC k 0) :
    tileAt blocks k step row ∈ teamTiles blocks n k team := by
  rw [teamTiles_eq_steps]
  exact List.mem_flatMap.mpr ⟨step, inSteps, List.mem_map_of_mem inRows⟩

theorem threadRange_eq {blocks : Blocks} {n team tid : Nat}
    (valid : tid < team) :
    threadRange blocks n team tid =
      (highEdgeCut team n blocks.NR tid,
        highEdgeCut team n blocks.NR (tid + 1)) :=
  dlpThreadTaskRange_highEdge ⟨0, team, tid⟩ n blocks.NR valid

section Team

variable {blocks : Blocks} {n k team : Nat}

/-- The team's column pieces are one chain over all columns. -/
theorem teamSteps_chain (legal : blocks.Legal) (delivered : 0 < team) :
    Chain 0 ((teamSteps blocks n team).map JcStep.piece) n := by
  have workers : ∀ tid, tid < team →
      Chain (highEdgeCut team n blocks.NR tid)
        ((jcLoop n blocks.NC blocks.minNR
          (threadRange blocks n team tid).2
          (threadRange blocks n team tid).2
          (threadRange blocks n team tid).1).map JcStep.piece)
        (highEdgeCut team n blocks.NR (tid + 1)) := by
    intro tid valid
    rw [threadRange_eq valid]
    exact jcLoop_chain n blocks.minNR legal.NC_pos _ (Nat.le_add_left _ _)
      (highEdgeCut_le_succ team n blocks.NR tid)
  have chain := Chain.flatMap_range team workers
  have first : highEdgeCut team n blocks.NR 0 = 0 := by
    simp [highEdgeCut, delivered]
  have last : highEdgeCut team n blocks.NR team = n := by
    simp [highEdgeCut]
  rw [first, last] at chain
  rw [teamSteps, List.map_flatMap]
  exact chain

/-- Every tile of the team is placed. -/
theorem teamTiles_placed (legal : blocks.Legal) {tile : Tile}
    (member : tile ∈ teamTiles blocks n k team) :
    tile.Placed legal n k := by
  rcases List.mem_flatMap.mp member with ⟨tid, inTeam, inRange⟩
  have valid : tid < team := List.mem_range.mp inTeam
  rw [threadRange_eq valid] at inRange
  exact rangeTiles_placed legal (highEdgeCut_dvd n blocks.NR valid)
    (highEdgeCut_le_succ team n blocks.NR tid)
    (highEdgeCut_ends n blocks.NR valid) inRange

theorem teamSteps_aligned (legal : blocks.Legal) {step : JcStep}
    (member : step ∈ teamSteps blocks n team) :
    blocks.NR ∣ step.jc := by
  rcases List.mem_flatMap.mp member with ⟨tid, inTeam, inLoop⟩
  have valid : tid < team := List.mem_range.mp inTeam
  rw [threadRange_eq valid] at inLoop
  exact (jcLoop_mem legal.NC_pos legal.NR_dvd
    (highEdgeCut_dvd n blocks.NR valid) inLoop).1

/-- The padded column pieces chain over the padded columns. -/
theorem paddedSteps_chain (legal : blocks.Legal) (delivered : 0 < team) :
    Chain 0
      ((teamSteps blocks n team).map fun step =>
        ⟨step.jc, roundUp step.nc0 blocks.minNR⟩)
      (roundUp n blocks.minNR) := by
  have padded := (teamSteps_chain legal delivered (n := n)).roundUp
    legal.widths.minNR_pos
    (by
      intro piece member
      rcases List.mem_map.mp member with ⟨step, stepMember, rfl⟩
      exact legal.widths.divides.trans (teamSteps_aligned legal stepMember))
    (dvd_zero blocks.minNR)
  rw [List.map_map] at padded
  exact padded

/-- The padded row pieces chain over the padded rows. -/
theorem paddedRows_chain (legal : blocks.Legal) (k : Nat) :
    Chain 0
      ((pcLoop k blocks.KC k 0).map fun row =>
        ⟨row.start, roundUp row.width blocks.kFactor⟩)
      (roundUp k blocks.kFactor) := by
  have rows : Chain 0 (pcLoop k blocks.KC k 0) k :=
    pcLoop_chain legal.KC_pos k (Nat.le_add_left k 0) (Nat.zero_le k)
  exact rows.roundUp legal.kFactor_pos
    (fun row member => legal.kFactor_dvd.trans
      (pcLoop_mem (dvd_zero blocks.KC) member).1)
    (dvd_zero blocks.kFactor)

/-- The slots that the up-front fill of a tile overwrites. -/
def Region (blocks : Blocks) (tile : Tile) (slot : Nat) : Prop :=
  tile.off ≤ slot ∧
    slot < tile.off +
      dlpReorderPanelElems tile.nc0 tile.kc0 blocks.minNR blocks.kFactor

theorem region_iff_base {legal : blocks.Legal} {tile : Tile}
    (placed : tile.Placed legal n k) (slot : Nat) :
    Region blocks tile slot ↔
      (imageGrid legal n k).base (blockStart tile.jc blocks.NC) tile.pc
          (tile.jc - blockStart tile.jc blocks.NC) ≤ slot ∧
        slot <
          (imageGrid legal n k).base (blockStart tile.jc blocks.NC) tile.pc
            (tile.jc - blockStart tile.jc blocks.NC) +
          roundUp tile.nc0 blocks.minNR *
            (imageGrid legal n k).height tile.pc := by
  rw [Region, dlpReorderPanelElems,
    dlpReorderRoundUp_eq legal.widths.minNR_pos,
    dlpReorderRoundUp_eq legal.kFactor_pos, placed.height_eq, placed.off_eq]

theorem region_lt {legal : blocks.Legal} {tile : Tile}
    (placed : tile.Placed legal n k) {slot : Nat}
    (inside : Region blocks tile slot) :
    slot < roundUp n blocks.minNR * roundUp k blocks.kFactor :=
  placed.origin.region_lt placed.padded_fits
    ((region_iff_base placed slot).mp inside).2

/-- The region of a placed tile is its rectangle of padded cells. -/
theorem region_iff_cell {legal : blocks.Legal} {tile : Tile}
    (placed : tile.Placed legal n k) {slot : Nat}
    (below : slot < roundUp n blocks.minNR * roundUp k blocks.kFactor) :
    Region blocks tile slot ↔
      (tile.jc ≤ ((imageGrid legal n k).cellOf slot).1 ∧
        ((imageGrid legal n k).cellOf slot).1 <
          tile.jc + roundUp tile.nc0 blocks.minNR) ∧
      (tile.pc ≤ ((imageGrid legal n k).cellOf slot).2 ∧
        ((imageGrid legal n k).cellOf slot).2 <
          tile.pc + roundUp tile.kc0 blocks.kFactor) := by
  rw [region_iff_base placed slot,
    placed.origin.mem_region_iff placed.padded_fits below,
    Nat.add_sub_of_le (blockStart_le tile.jc blocks.NC), placed.height_eq]

/-- The element lies in the tile's window of live rows and columns. -/
def InWindow (tile : Tile) (p j : Nat) : Prop :=
  (tile.pc ≤ p ∧ p < tile.pc + tile.kc0) ∧
    (tile.jc ≤ j ∧ j < tile.jc + tile.nc0)

theorem row_lt_of_window {legal : blocks.Legal} {tile : Tile}
    (placed : tile.Placed legal n k) {p j : Nat}
    (window : InWindow tile p j) : p < k := by
  have upper := window.1.2
  have start := placed.row_lt
  rw [placed.kc0_eq] at upper
  omega

theorem column_lt_of_window {legal : blocks.Legal} {tile : Tile}
    (placed : tile.Placed legal n k) {p j : Nat}
    (window : InWindow tile p j) : j < n :=
  window.2.2.trans_le placed.column_end_le

/-- A tile's own offsets are the slots of its elements. -/
theorem slotOf_eq_tile_offset {legal : blocks.Legal} {tile : Tile}
    (placed : tile.Placed legal n k) {kr col : Nat} (row : kr < tile.kc0)
    (column : col < tile.nc0) :
    tile.off +
        (chunkStart tile.nc0 blocks.NR blocks.minNR col *
            roundUp tile.kc0 blocks.kFactor +
          dlpReorderElemOffset kr
            (col - chunkStart tile.nc0 blocks.NR blocks.minNR col)
            (chunkSlot tile.nc0 blocks.NR blocks.minNR col)
            blocks.kFactor) =
      slotOf legal n k (tile.pc + kr) (tile.jc + col) := by
  have panelLe := blockStart_le tile.jc blocks.NC
  have rowBound : kr < blocks.KC := by
    have bound := row
    rw [placed.kc0_eq] at bound
    exact bound.trans_le (min_le_right _ _)
  have block : blockStart (tile.pc + kr) blocks.KC = tile.pc :=
    blockStart_eq placed.row_dvd (Nat.le_add_right _ _)
      (Nat.add_lt_add_left rowBound _)
  have panel := placed.column_panel column
  have chunk := legal.widths.chunk_shift placed.aligned column placed.ends
  unfold slotOf
  dsimp only
  rw [block, panel, chunk.1, chunk.2, placed.height_eq, placed.off_eq,
    Nat.add_sub_cancel_left, Nat.add_sub_add_left,
    Nat.sub_add_comm panelLe]
  unfold Grid.base
  ring

/-- A chunk of a tile stores its elements at their slots. -/
theorem chunk_eq_slotOf {legal : blocks.Legal} {tile : Tile}
    (placed : tile.Placed legal n k) {chunk : DlpReorderChunk}
    (visited : chunk ∈ panelChunks tile.nc0 blocks.NR blocks.minNR
      (dlpReorderRoundUp tile.kc0 blocks.kFactor)) {kr i : Nat}
    (row : kr < tile.kc0) (inside : i < chunk.cols) :
    tile.off + chunk.offset +
        dlpReorderElemOffset kr i chunk.slot blocks.kFactor =
      slotOf legal n k (tile.pc + kr) (tile.jc + chunk.colStart + i) := by
  have isChunk := panelChunks_isChunk legal.widths visited
  have column := isChunk.column i inside
  have below : chunk.colStart + i < tile.nc0 :=
    (Nat.add_lt_add_left inside _).trans_le isChunk.inside
  have slot := slotOf_eq_tile_offset placed row below
  rw [column.1, column.2, Nat.add_sub_cancel_left] at slot
  rw [isChunk.offset, dlpReorderRoundUp_eq legal.kFactor_pos, Nat.add_assoc,
    Nat.add_assoc tile.jc, slot]

/--
A tile, or a part of one, that stores its live elements at their slots and
whose fill reaches the slots of no other element.
-/
structure Stored (legal : blocks.Legal) (n k : Nat) (tile : Tile) :
    Prop where
  row_end_le : tile.pc + tile.kc0 ≤ k
  column_end_le : tile.jc + tile.nc0 ≤ n
  slot_eq : ∀ kr col, kr < tile.kc0 → col < tile.nc0 →
    tile.off +
        (chunkStart tile.nc0 blocks.NR blocks.minNR col *
            roundUp tile.kc0 blocks.kFactor +
          dlpReorderElemOffset kr
            (col - chunkStart tile.nc0 blocks.NR blocks.minNR col)
            (chunkSlot tile.nc0 blocks.NR blocks.minNR col)
            blocks.kFactor) =
      slotOf legal n k (tile.pc + kr) (tile.jc + col)
  window : ∀ p j, p < k → j < n →
    Region blocks tile (slotOf legal n k p j) → InWindow tile p j

/-- The elements of a panel lie inside its padded extent. -/
theorem elem_lt_panelElems (legal : blocks.Legal) {nc0 kc0 kr col : Nat}
    (row : kr < kc0) (column : col < nc0) :
    chunkStart nc0 blocks.NR blocks.minNR col *
          roundUp kc0 blocks.kFactor +
        dlpReorderElemOffset kr
          (col - chunkStart nc0 blocks.NR blocks.minNR col)
          (chunkSlot nc0 blocks.NR blocks.minNR col) blocks.kFactor <
      dlpReorderPanelElems nc0 kc0 blocks.minNR blocks.kFactor := by
  have kPos := legal.kFactor_pos
  have start := Widths.chunkStart_le blocks.NR blocks.minNR nc0 col
  have stop := legal.widths.lt_chunkEnd column
  have padded := legal.widths.chunkEnd_le_roundUp column
  have low := elemOffset_lt kPos (dvd_roundUp kc0 blocks.kFactor)
    (row.trans_le (le_roundUp kPos kc0))
    (show col - chunkStart nc0 blocks.NR blocks.minNR col <
      chunkSlot nc0 blocks.NR blocks.minNR col by omega)
  rw [dlpReorderPanelElems, dlpReorderRoundUp_eq legal.widths.minNR_pos,
    dlpReorderRoundUp_eq kPos]
  calc
    chunkStart nc0 blocks.NR blocks.minNR col *
          roundUp kc0 blocks.kFactor +
        dlpReorderElemOffset kr
          (col - chunkStart nc0 blocks.NR blocks.minNR col)
          (chunkSlot nc0 blocks.NR blocks.minNR col) blocks.kFactor <
        chunkStart nc0 blocks.NR blocks.minNR col *
            roundUp kc0 blocks.kFactor +
          chunkSlot nc0 blocks.NR blocks.minNR col *
            roundUp kc0 blocks.kFactor :=
      Nat.add_lt_add_left low _
    _ = (chunkStart nc0 blocks.NR blocks.minNR col +
          chunkSlot nc0 blocks.NR blocks.minNR col) *
            roundUp kc0 blocks.kFactor := by ring
    _ ≤ roundUp nc0 blocks.minNR * roundUp kc0 blocks.kFactor :=
      Nat.mul_le_mul_right _ padded

/-- Live elements of a tile are stored inside its region. -/
theorem region_slotOf {legal : blocks.Legal} {tile : Tile}
    (stored : Stored legal n k tile) {p j : Nat}
    (window : InWindow tile p j) :
    Region blocks tile (slotOf legal n k p j) := by
  rcases Nat.exists_eq_add_of_le window.1.1 with ⟨kr, rfl⟩
  rcases Nat.exists_eq_add_of_le window.2.1 with ⟨col, rfl⟩
  have row : kr < tile.kc0 := Nat.lt_of_add_lt_add_left window.1.2
  have column : col < tile.nc0 := Nat.lt_of_add_lt_add_left window.2.2
  rw [← stored.slot_eq kr col row column]
  exact ⟨Nat.le_add_right _ _,
    Nat.add_lt_add_left (elem_lt_panelElems legal row column) _⟩

/-- Only live elements of a tile are stored inside its region. -/
theorem window_of_region {legal : blocks.Legal} {tile : Tile}
    (placed : tile.Placed legal n k) {p j : Nat} (row : p < k)
    (column : j < n)
    (inside : Region blocks tile (slotOf legal n k p j)) :
    InWindow tile p j := by
  have below := region_lt placed inside
  rw [region_iff_cell placed below, placed.height_eq] at inside
  rcases cellOf_slotOf legal row column with ⟨inChunk, inBlock⟩
  generalize (imageGrid legal n k).cellOf (slotOf legal n k p j) = cell
    at inside inChunk inBlock
  have chunk := legal.widths.chunk_of_inside inChunk.1 inChunk.2
  have stop := legal.widths.lt_chunkEnd column
  constructor
  · have block : blockStart p blocks.KC = tile.pc := by
      rw [← (element_origin legal row column).blockStart_row inBlock.1
        inBlock.2]
      exact placed.origin.blockStart_row inside.2.1 inside.2.2
    have lower := blockStart_le p blocks.KC
    have close := lt_blockStart_add legal.KC_pos p
    rw [block] at lower close
    rw [placed.kc0_eq]
    omega
  · constructor
    · have before := legal.widths.le_chunkStart_of_dvd placed.aligned
        inside.1.1 placed.column_lt.le
      rw [chunk.1] at before
      exact before.trans (Widths.chunkStart_le _ _ n j)
    · rcases placed.ends with last | ⟨divides, fits⟩
      · exact column.trans_eq last.symm
      · have exactWidth : roundUp tile.nc0 blocks.minNR = tile.nc0 :=
          roundUp_of_dvd legal.widths.minNR_pos
            (legal.widths.divides.trans divides)
        have bound := inside.1.2
        rw [exactWidth] at bound
        have after := legal.widths.chunkEnd_le_of_dvd
          (Nat.dvd_add placed.aligned divides) bound
          (bound.trans_le fits)
        rw [chunk.1, chunk.2] at after
        exact stop.trans_le after

/-- A tile of the walk is stored. -/
theorem stored_of_placed {legal : blocks.Legal} {tile : Tile}
    (placed : tile.Placed legal n k) : Stored legal n k tile where
  row_end_le := by
    have live := placed.kc0_eq
    have start := placed.row_lt
    omega
  column_end_le := placed.column_end_le
  slot_eq := fun _ _ row column => slotOf_eq_tile_offset placed row column
  window := fun _ _ row column inside =>
    window_of_region placed row column inside

/-- Every slot of the image is filled by some tile of the team. -/
theorem exists_region (legal : blocks.Legal) (delivered : 0 < team)
    {slot : Nat}
    (below : slot < roundUp n blocks.minNR * roundUp k blocks.kFactor) :
    ∃ tile, tile ∈ teamTiles blocks n k team ∧ Region blocks tile slot := by
  rcases (imageGrid legal n k).cellOf_lt below with ⟨column, row⟩
  rcases (paddedSteps_chain legal delivered).exists_has
      (Nat.zero_le _) column with ⟨_, stepMember, hasColumn⟩
  rcases (paddedRows_chain legal k).exists_has (Nat.zero_le _) row with
    ⟨_, rowMember, hasRow⟩
  rcases List.mem_map.mp stepMember with ⟨step, inSteps, rfl⟩
  rcases List.mem_map.mp rowMember with ⟨piece, inRows, rfl⟩
  have member := tileAt_mem_teamTiles inSteps inRows
  refine ⟨_, member, ?_⟩
  rw [region_iff_cell (teamTiles_placed legal member) below]
  exact ⟨hasColumn, hasRow⟩

/-- Every element lies in the window of some tile of the team. -/
theorem exists_window (legal : blocks.Legal) (delivered : 0 < team)
    {p j : Nat} (row : p < k) (column : j < n) :
    ∃ tile, tile ∈ teamTiles blocks n k team ∧ InWindow tile p j := by
  have rows : Chain 0 (pcLoop k blocks.KC k 0) k :=
    pcLoop_chain legal.KC_pos k (Nat.le_add_left k 0) (Nat.zero_le k)
  rcases rows.exists_has (Nat.zero_le p) row with
    ⟨piece, inRows, hasRow⟩
  rcases (teamSteps_chain legal delivered).exists_has (Nat.zero_le j)
      column with ⟨_, stepMember, hasColumn⟩
  rcases List.mem_map.mp stepMember with ⟨step, inSteps, rfl⟩
  exact ⟨tileAt blocks k step piece, tileAt_mem_teamTiles inSteps inRows,
    hasRow, hasColumn⟩

/-- Two tiles whose fills have no slot in common. -/
def Apart (blocks : Blocks) (left right : Tile) : Prop :=
  ∀ slot, Region blocks left slot → ¬ Region blocks right slot

/-- No fill of the team touches the slots of another tile. -/
theorem teamTiles_pairwise_apart (legal : blocks.Legal)
    (delivered : 0 < team) :
    (teamTiles blocks n k team).Pairwise (Apart blocks) := by
  have placed : ∀ step, step ∈ teamSteps blocks n team →
      ∀ row, row ∈ pcLoop k blocks.KC k 0 →
        (tileAt blocks k step row).Placed legal n k :=
    fun step inSteps row inRows =>
      teamTiles_placed legal (tileAt_mem_teamTiles inSteps inRows)
  rw [teamTiles_eq_steps, List.pairwise_flatMap]
  constructor
  · intro step inSteps
    rw [List.pairwise_map]
    have ordered := (paddedRows_chain legal k).pairwise
    rw [List.pairwise_map] at ordered
    refine ordered.imp_of_mem ?_
    intro upper lower inUpper inLower before slot inFirst inSecond
    have below := region_lt (placed step inSteps upper inUpper) inFirst
    rw [region_iff_cell (placed step inSteps upper inUpper) below] at inFirst
    rw [region_iff_cell (placed step inSteps lower inLower) below]
      at inSecond
    exact absurd (inFirst.2.2.trans_le (before.trans inSecond.2.1))
      (lt_irrefl _)
  · have ordered := (paddedSteps_chain legal delivered (n := n)).pairwise
    rw [List.pairwise_map] at ordered
    refine ordered.imp_of_mem ?_
    intro first second inFirst inSecond before left leftMember right
      rightMember slot inLeft inRight
    rcases List.mem_map.mp leftMember with ⟨upper, inUpper, rfl⟩
    rcases List.mem_map.mp rightMember with ⟨lower, inLower, rfl⟩
    have below := region_lt (placed first inFirst upper inUpper) inLeft
    rw [region_iff_cell (placed first inFirst upper inUpper) below] at inLeft
    rw [region_iff_cell (placed second inSecond lower inLower) below]
      at inRight
    exact absurd (inLeft.1.2.trans_le (before.trans inRight.1.1))
      (lt_irrefl _)

end Team

end AoclDlp.Layout.TeamTiles
