import AoclDlp.Foundations.Memory
import AoclDlp.Layout.TeamTiles

/-!
# Reference reorder and un-reorder

`dlp_gemm_reorder_ref.c` moves the elements of a strided `k` by `n` matrix into
the packed image and back.  Memory is byte addressed and an element is
`elem_sz` consecutive bytes.  Pack zero-fills a tile's padded area and then
copies its elements; unpack runs the same loops with source and destination
exchanged.

The tiles of a team may run in any order.  A schedule is a permutation of the
team's tiles, and the results hold for every schedule of every team.
-/

namespace AoclDlp.Layout.ReorderRef

open AoclDlp.Foundations.Memory
open AoclDlp.Foundations.Rounding
open AoclDlp.Layout.Chunk
open AoclDlp.Layout.Panel
open AoclDlp.Layout.TeamTiles

/-- Byte contents of a buffer, indexed from its first byte. -/
abbrev Bytes := Nat → UInt8

/-- `dlp_reorder_copy_elem`. -/
def dlpReorderCopyElem (dst src elemSz : Nat) (source target : Bytes) :
    Bytes :=
  copyBlock elemSz dst src source target

/-- `dlp_reorder_ref_packb`; the two pointers are byte offsets. -/
def dlpReorderRefPackb
    (packB b elemSz kFactor nc0 kc0 NR minNR rsB csB : Nat)
    (unpacked packed : Bytes) : Bytes :=
  let kc0Padded := dlpReorderRoundUp kc0 kFactor
  let cleared :=
    fill packB (dlpReorderPanelElems nc0 kc0 minNR kFactor * elemSz) 0 packed
  (panelChunks nc0 NR minNR kc0Padded).foldl (fun out chunk =>
    (List.range kc0).foldl (fun out kr =>
      (List.range chunk.cols).foldl (fun out i =>
        let src := kr * rsB + (chunk.colStart + i) * csB
        let dst :=
          chunk.offset + dlpReorderElemOffset kr i chunk.slot kFactor
        dlpReorderCopyElem (packB + dst * elemSz) (b + src * elemSz) elemSz
          unpacked out) out) out) cleared

/-- `dlp_reorder_ref_unpackb`; the two pointers are byte offsets. -/
def dlpReorderRefUnpackb
    (packB b elemSz kFactor nc0 kc0 NR minNR rsB csB : Nat)
    (packed unpacked : Bytes) : Bytes :=
  let kc0Padded := dlpReorderRoundUp kc0 kFactor
  (panelChunks nc0 NR minNR kc0Padded).foldl (fun out chunk =>
    (List.range kc0).foldl (fun out kr =>
      (List.range chunk.cols).foldl (fun out i =>
        let dst := kr * rsB + (chunk.colStart + i) * csB
        let src :=
          chunk.offset + dlpReorderElemOffset kr i chunk.slot kFactor
        dlpReorderCopyElem (b + dst * elemSz) (packB + src * elemSz) elemSz
          packed out) out) out) unpacked

/-- The matrix geometry of a reorder call. -/
structure MatrixShape where
  n : Nat
  k : Nat
  rsB : Nat
  csB : Nat
  elemSz : Nat
  deriving DecidableEq, Repr

/-- The strides separate the elements of the `k` by `n` window. -/
def MatrixShape.InjectiveStrides (shape : MatrixShape) : Prop :=
  ∀ p j p2 j2, p < shape.k → j < shape.n → p2 < shape.k → j2 < shape.n →
    p * shape.rsB + j * shape.csB = p2 * shape.rsB + j2 * shape.csB →
      p = p2 ∧ j = j2

/-- The body of `dlp_reorder_ref_walk` at one tile, packing. -/
def packTile (blocks : Blocks) (shape : MatrixShape) (unpacked : Bytes)
    (tile : Tile) (packed : Bytes) : Bytes :=
  dlpReorderRefPackb (tile.off * shape.elemSz)
    ((shape.rsB * tile.pc + tile.jc * shape.csB) * shape.elemSz)
    shape.elemSz blocks.kFactor tile.nc0 tile.kc0 blocks.NR blocks.minNR
    shape.rsB shape.csB unpacked packed

/-- The body of `dlp_reorder_ref_walk` at one tile, unpacking. -/
def unpackTile (blocks : Blocks) (shape : MatrixShape) (packed : Bytes)
    (tile : Tile) (unpacked : Bytes) : Bytes :=
  dlpReorderRefUnpackb (tile.off * shape.elemSz)
    ((shape.rsB * tile.pc + tile.jc * shape.csB) * shape.elemSz)
    shape.elemSz blocks.kFactor tile.nc0 tile.kc0 blocks.NR blocks.minNR
    shape.rsB shape.csB packed unpacked

/-- An order in which a delivered team executes its tiles. -/
structure Schedule (blocks : Blocks) (shape : MatrixShape) (team : Nat) where
  order : List Tile
  perm : order.Perm (teamTiles blocks shape.n shape.k team)

/-- The schedule that runs the threads one after the other. -/
def Schedule.inOrder (blocks : Blocks) (shape : MatrixShape) (team : Nat) :
    Schedule blocks shape team :=
  ⟨teamTiles blocks shape.n shape.k team, .refl _⟩

/-- `dlp_reorder_ref_reorderb` under a schedule of its team. -/
def dlpReorderRefReorderb {blocks : Blocks} {shape : MatrixShape}
    {team : Nat} (schedule : Schedule blocks shape team)
    (unpacked packed : Bytes) : Bytes :=
  schedule.order.foldl
    (fun current tile => packTile blocks shape unpacked tile current) packed

/-- `dlp_reorder_ref_unreorderb` under a schedule of its team. -/
def dlpReorderRefUnreorderb {blocks : Blocks} {shape : MatrixShape}
    {team : Nat} (schedule : Schedule blocks shape team)
    (packed unpacked : Bytes) : Bytes :=
  schedule.order.foldl
    (fun current tile => unpackTile blocks shape packed tile current) unpacked

/-! ## The moves of a panel -/

/-- The `(packed, unpacked)` element pairs that a panel's loops visit. -/
def panelMoves (blocks : Blocks) (nc0 kc0 rsB csB : Nat) :
    List (Nat × Nat) :=
  (panelChunks nc0 blocks.NR blocks.minNR
      (dlpReorderRoundUp kc0 blocks.kFactor)).flatMap fun chunk =>
    (List.range kc0).flatMap fun kr =>
      (List.range chunk.cols).map fun i =>
        (chunk.offset + dlpReorderElemOffset kr i chunk.slot blocks.kFactor,
          kr * rsB + (chunk.colStart + i) * csB)

/-- The moves of a tile in whole-matrix element indices. -/
def tileMoves (blocks : Blocks) (shape : MatrixShape) (tile : Tile) :
    List (Nat × Nat) :=
  (panelMoves blocks tile.nc0 tile.kc0 shape.rsB shape.csB).map fun move =>
    (tile.off + move.1,
      shape.rsB * tile.pc + tile.jc * shape.csB + move.2)

theorem packTile_eq_copyElems (blocks : Blocks) (shape : MatrixShape)
    (unpacked packed : Bytes) (tile : Tile) :
    packTile blocks shape unpacked tile packed =
      copyElems shape.elemSz (tileMoves blocks shape tile) unpacked
        (fill (tile.off * shape.elemSz)
          (dlpReorderPanelElems tile.nc0 tile.kc0 blocks.minNR
            blocks.kFactor * shape.elemSz) 0 packed) := by
  simp only [packTile, dlpReorderRefPackb, copyElems, tileMoves, panelMoves,
    List.foldl_map, List.foldl_flatMap, dlpReorderCopyElem, Nat.add_mul]

theorem unpackTile_eq_copyElems (blocks : Blocks) (shape : MatrixShape)
    (packed unpacked : Bytes) (tile : Tile) :
    unpackTile blocks shape packed tile unpacked =
      copyElems shape.elemSz
        ((tileMoves blocks shape tile).map Prod.swap) packed unpacked := by
  simp only [unpackTile, dlpReorderRefUnpackb, copyElems, tileMoves,
    panelMoves, List.foldl_map, List.foldl_flatMap, dlpReorderCopyElem,
    Nat.add_mul, Prod.fst_swap, Prod.snd_swap]

theorem mem_panelMoves_iff {blocks : Blocks} (legal : blocks.Legal)
    {nc0 kc0 rsB csB : Nat} {move : Nat × Nat} :
    move ∈ panelMoves blocks nc0 kc0 rsB csB ↔
      ∃ kr col, kr < kc0 ∧ col < nc0 ∧
        move =
          (chunkStart nc0 blocks.NR blocks.minNR col *
              roundUp kc0 blocks.kFactor +
            dlpReorderElemOffset kr
              (col - chunkStart nc0 blocks.NR blocks.minNR col)
              (chunkSlot nc0 blocks.NR blocks.minNR col) blocks.kFactor,
            kr * rsB + col * csB) := by
  simp only [panelMoves, List.mem_flatMap, List.mem_map, List.mem_range,
    dlpReorderRoundUp_eq legal.kFactor_pos]
  constructor
  · rintro ⟨chunk, visited, kr, row, i, inside, rfl⟩
    have isChunk := panelChunks_isChunk legal.widths visited
    have column := isChunk.column i inside
    refine ⟨kr, chunk.colStart + i, row, ?_, ?_⟩
    · exact (Nat.add_lt_add_left inside _).trans_le isChunk.inside
    · rw [column.1, column.2, Nat.add_sub_cancel_left, isChunk.offset]
  · rintro ⟨kr, col, row, below, rfl⟩
    rcases panelChunks_covers legal.widths (roundUp kc0 blocks.kFactor)
        below with ⟨chunk, visited, lower, upper⟩
    have isChunk := panelChunks_isChunk legal.widths visited
    rcases Nat.exists_eq_add_of_le lower with ⟨i, rfl⟩
    have inside : i < chunk.cols := Nat.lt_of_add_lt_add_left upper
    have column := isChunk.column i inside
    refine ⟨chunk, visited, kr, row, i, inside, ?_⟩
    rw [column.1, column.2, Nat.add_sub_cancel_left, isChunk.offset]

section Tile

variable {blocks : Blocks} {legal : blocks.Legal} {shape : MatrixShape}
    {tile : Tile}

/-- A tile moves exactly its live elements, each to its slot. -/
theorem mem_tileMoves_iff (stored : Stored legal shape.n shape.k tile)
    {move : Nat × Nat} :
    move ∈ tileMoves blocks shape tile ↔
      ∃ p j, InWindow tile p j ∧
        move = (slotOf legal shape.n shape.k p j,
          p * shape.rsB + j * shape.csB) := by
  simp only [tileMoves, List.mem_map, mem_panelMoves_iff legal]
  constructor
  · rintro ⟨_, ⟨kr, col, row, column, rfl⟩, rfl⟩
    refine ⟨tile.pc + kr, tile.jc + col,
      ⟨⟨Nat.le_add_right _ _, Nat.add_lt_add_left row _⟩,
        Nat.le_add_right _ _, Nat.add_lt_add_left column _⟩, ?_⟩
    rw [stored.slot_eq kr col row column]
    congr 1
    ring
  · rintro ⟨p, j, window, rfl⟩
    rcases Nat.exists_eq_add_of_le window.1.1 with ⟨kr, rfl⟩
    rcases Nat.exists_eq_add_of_le window.2.1 with ⟨col, rfl⟩
    have row : kr < tile.kc0 := Nat.lt_of_add_lt_add_left window.1.2
    have column : col < tile.nc0 := Nat.lt_of_add_lt_add_left window.2.2
    refine ⟨_, ⟨kr, col, row, column, rfl⟩, ?_⟩
    rw [stored.slot_eq kr col row column]
    congr 1
    ring

theorem byte_region_iff (positive : 0 < shape.elemSz) (address : Nat) :
    (tile.off * shape.elemSz ≤ address ∧
      address < tile.off * shape.elemSz +
        dlpReorderPanelElems tile.nc0 tile.kc0 blocks.minNR blocks.kFactor *
          shape.elemSz) ↔
      Region blocks tile (address / shape.elemSz) := by
  rw [Region, Nat.le_div_iff_mul_le positive,
    Nat.div_lt_iff_lt_mul positive, Nat.add_mul]

/-- Packing a tile writes nothing outside its region. -/
theorem packTile_frame (legal : blocks.Legal) (positive : 0 < shape.elemSz)
    (unpacked packed : Bytes) {address : Nat}
    (outside : ¬ Region blocks tile (address / shape.elemSz)) :
    packTile blocks shape unpacked tile packed address = packed address := by
  have bounds : ¬ _ :=
    fun inside => outside ((byte_region_iff positive address).mp inside)
  rw [packTile_eq_copyElems, copyElems_frame positive,
    fill_outside 0 packed bounds]
  intro move member same
  rcases List.mem_map.mp member with ⟨inner, inPanel, rfl⟩
  rcases (mem_panelMoves_iff legal).mp inPanel with
    ⟨kr, col, row, column, rfl⟩
  apply outside
  rw [← same]
  exact ⟨Nat.le_add_right _ _,
    Nat.add_lt_add_left (elem_lt_panelElems legal row column) _⟩

/-- Packing a tile overwrites its region and nothing else. -/
theorem packTile_patches (legal : blocks.Legal)
    (positive : 0 < shape.elemSz) (unpacked : Bytes) :
    Patches (packTile blocks shape unpacked)
      (fun tile address => Region blocks tile (address / shape.elemSz))
      (fun tile => packTile blocks shape unpacked tile fun _ => 0) tile where
  hit := by
    intro packed address inside
    have bounds := (byte_region_iff positive address).mpr inside
    rw [packTile_eq_copyElems, packTile_eq_copyElems]
    apply copyElems_congr
    rw [fill_inside 0 packed bounds.1 bounds.2,
      fill_inside 0 (fun _ => 0) bounds.1 bounds.2]
  frame := fun packed _ outside =>
    packTile_frame legal positive unpacked packed outside

/-- A packed tile holds each of its elements at the element's slot. -/
theorem packTile_at_slot (positive : 0 < shape.elemSz)
    (stored : Stored legal shape.n shape.k tile) (unpacked packed : Bytes)
    {p j address : Nat} (window : InWindow tile p j)
    (atSlot : address / shape.elemSz = slotOf legal shape.n shape.k p j) :
    packTile blocks shape unpacked tile packed address =
      unpacked ((p * shape.rsB + j * shape.csB) * shape.elemSz +
        address % shape.elemSz) := by
  rw [packTile_eq_copyElems]
  apply copyElems_hit positive
  · rw [atSlot]
    exact (mem_tileMoves_iff stored).mpr ⟨p, j, window, rfl⟩
  · intro move member same
    rcases (mem_tileMoves_iff stored).mp member with ⟨p2, j2, window2, rfl⟩
    rcases slotOf_injective legal
        (window2.1.2.trans_le stored.row_end_le)
        (window2.2.2.trans_le stored.column_end_le)
        (window.1.2.trans_le stored.row_end_le)
        (window.2.2.trans_le stored.column_end_le) (same.trans atSlot) with
      ⟨rfl, rfl⟩
    rfl

/-- The rest of a packed tile's region is zero. -/
theorem packTile_padding (positive : 0 < shape.elemSz)
    (stored : Stored legal shape.n shape.k tile) (unpacked packed : Bytes)
    {address : Nat}
    (inside : Region blocks tile (address / shape.elemSz))
    (padding : ∀ p j, p < shape.k → j < shape.n →
      slotOf legal shape.n shape.k p j ≠ address / shape.elemSz) :
    packTile blocks shape unpacked tile packed address = 0 := by
  have bounds := (byte_region_iff positive address).mpr inside
  rw [packTile_eq_copyElems, copyElems_frame positive,
    fill_inside 0 packed bounds.1 bounds.2]
  intro move member
  rcases (mem_tileMoves_iff stored).mp member with ⟨p, j, window, rfl⟩
  exact padding p j (window.1.2.trans_le stored.row_end_le)
    (window.2.2.trans_le stored.column_end_le)

end Tile

/-! ## Packing a list of tiles -/

/-- Pack the tiles of a list, one after the other. -/
def packTiles (blocks : Blocks) (shape : MatrixShape) (unpacked : Bytes)
    (tiles : List Tile) (packed : Bytes) : Bytes :=
  tiles.foldl
    (fun current tile => packTile blocks shape unpacked tile current) packed

section Tiles

variable {blocks : Blocks} {legal : blocks.Legal} {shape : MatrixShape}
    {tiles : List Tile}

/-- An element in the window of a packed tile is stored at its slot. -/
theorem packTiles_at_slot (positive : 0 < shape.elemSz)
    (stored : ∀ tile, tile ∈ tiles → Stored legal shape.n shape.k tile)
    (unpacked packed : Bytes) {p j address : Nat} (row : p < shape.k)
    (column : j < shape.n)
    (covered : ∃ tile, tile ∈ tiles ∧ InWindow tile p j)
    (atSlot : address / shape.elemSz = slotOf legal shape.n shape.k p j) :
    packTiles blocks shape unpacked tiles packed address =
      unpacked ((p * shape.rsB + j * shape.csB) * shape.elemSz +
        address % shape.elemSz) := by
  apply foldl_patch_hit (fun _ _ =>
    packTile_patches legal positive unpacked)
  · rcases covered with ⟨tile, member, window⟩
    refine ⟨tile, member, ?_⟩
    rw [atSlot]
    exact region_slotOf (stored tile member) window
  · intro tile member inside
    exact packTile_at_slot positive (stored tile member) unpacked _
      ((stored tile member).window p j row column (atSlot ▸ inside)) atSlot

/-- A filled slot without an element is zero. -/
theorem packTiles_padding (positive : 0 < shape.elemSz)
    (stored : ∀ tile, tile ∈ tiles → Stored legal shape.n shape.k tile)
    (unpacked packed : Bytes) {address : Nat}
    (filled : ∃ tile, tile ∈ tiles ∧
      Region blocks tile (address / shape.elemSz))
    (padding : ∀ p j, p < shape.k → j < shape.n →
      slotOf legal shape.n shape.k p j ≠ address / shape.elemSz) :
    packTiles blocks shape unpacked tiles packed address = 0 := by
  apply foldl_patch_hit (fun _ _ =>
    packTile_patches legal positive unpacked) _ filled
  intro tile member inside
  exact packTile_padding positive (stored tile member) unpacked _ inside
    padding

/-- Nothing is written outside the regions of the tiles. -/
theorem packTiles_frame (legal : blocks.Legal)
    (positive : 0 < shape.elemSz) (unpacked packed : Bytes) {address : Nat}
    (untouched : ∀ tile, tile ∈ tiles →
      ¬ Region blocks tile (address / shape.elemSz)) :
    packTiles blocks shape unpacked tiles packed address =
      packed address :=
  foldl_patch_frame (fun _ _ =>
    packTile_patches legal positive unpacked) packed untouched

end Tiles

/-! ## Packing elsewhere -/

/-- A tile that is packed `base` elements further on. -/
def movedTile (base : Nat) (tile : Tile) : Tile :=
  { tile with off := base + tile.off }

section Moved

variable {blocks : Blocks} {shape : MatrixShape}

theorem region_moved (base : Nat) (tile : Tile) (slot : Nat) :
    Region blocks (movedTile base tile) (base + slot) ↔
      Region blocks tile slot := by
  simp only [Region, movedTile, Nat.add_assoc, Nat.add_le_add_iff_left,
    Nat.add_lt_add_iff_left]

theorem tileMoves_moved (base : Nat) (tile : Tile) :
    tileMoves blocks shape (movedTile base tile) =
      (tileMoves blocks shape tile).map fun move =>
        (base + move.1, move.2) := by
  unfold tileMoves
  rw [List.map_map]
  apply List.map_congr_left
  intro move _
  exact congrArg (fun dst => (dst, _)) (Nat.add_assoc base tile.off move.1)

/-- A cell of a packed tile depends on its own old value only. -/
theorem packTile_congr (unpacked : Bytes) (tile : Tile) {left right : Bytes}
    {address : Nat} (same : left address = right address) :
    packTile blocks shape unpacked tile left address =
      packTile blocks shape unpacked tile right address := by
  rw [packTile_eq_copyElems, packTile_eq_copyElems]
  apply copyElems_congr
  simp only [fill, same]

/-- Packing a tile elsewhere packs the same cells. -/
theorem packTile_moved (unpacked : Bytes) (tile : Tile) {a b offset : Nat}
    {left right : Bytes}
    (same : left (a * shape.elemSz + offset) =
      right (b * shape.elemSz + offset)) :
    packTile blocks shape unpacked (movedTile a tile) left
        (a * shape.elemSz + offset) =
      packTile blocks shape unpacked (movedTile b tile) right
        (b * shape.elemSz + offset) := by
  rw [packTile_eq_copyElems, packTile_eq_copyElems, tileMoves_moved,
    tileMoves_moved]
  apply copyElems_moved
  simp only [fill, movedTile, Nat.add_mul, Nat.add_assoc,
    Nat.add_le_add_iff_left, Nat.add_lt_add_iff_left, same]

theorem packTiles_moved (unpacked : Bytes) (tiles : List Tile)
    {a b offset : Nat} {left right : Bytes}
    (same : left (a * shape.elemSz + offset) =
      right (b * shape.elemSz + offset)) :
    packTiles blocks shape unpacked (tiles.map (movedTile a)) left
        (a * shape.elemSz + offset) =
      packTiles blocks shape unpacked (tiles.map (movedTile b)) right
        (b * shape.elemSz + offset) := by
  unfold packTiles
  induction tiles generalizing left right with
  | nil => exact same
  | cons tile rest ih =>
      rw [List.map_cons, List.map_cons, List.foldl_cons, List.foldl_cons]
      exact ih (packTile_moved unpacked tile same)

end Moved

/-! ## The packed image -/

section Image

variable {blocks : Blocks} {shape : MatrixShape} {team : Nat}

theorem Schedule.placed (schedule : Schedule blocks shape team)
    (legal : blocks.Legal) {tile : Tile} (member : tile ∈ schedule.order) :
    tile.Placed legal shape.n shape.k :=
  teamTiles_placed legal (schedule.perm.mem_iff.mp member)

theorem Schedule.stored (schedule : Schedule blocks shape team)
    (legal : blocks.Legal) {tile : Tile} (member : tile ∈ schedule.order) :
    Stored legal shape.n shape.k tile :=
  stored_of_placed (schedule.placed legal member)

/-- Slots of the packed image. -/
def imageElems (blocks : Blocks) (shape : MatrixShape) : Nat :=
  roundUp shape.n blocks.minNR * roundUp shape.k blocks.kFactor

theorem Schedule.exists_region (schedule : Schedule blocks shape team)
    (legal : blocks.Legal) (delivered : 0 < team) {slot : Nat}
    (below : slot < imageElems blocks shape) :
    ∃ tile, tile ∈ schedule.order ∧ Region blocks tile slot := by
  rcases TeamTiles.exists_region legal delivered below with
    ⟨tile, member, inside⟩
  exact ⟨tile, schedule.perm.mem_iff.mpr member, inside⟩

/-- Every element is stored at its slot. -/
theorem reorderb_at_slot (legal : blocks.Legal) (delivered : 0 < team)
    (positive : 0 < shape.elemSz) (schedule : Schedule blocks shape team)
    (unpacked packed : Bytes) {p j address : Nat} (row : p < shape.k)
    (column : j < shape.n)
    (atSlot : address / shape.elemSz = slotOf legal shape.n shape.k p j) :
    dlpReorderRefReorderb schedule unpacked packed address =
      unpacked ((p * shape.rsB + j * shape.csB) * shape.elemSz +
        address % shape.elemSz) := by
  rcases exists_window legal delivered row column with
    ⟨tile, member, window⟩
  exact packTiles_at_slot positive
    (fun _ inOrder => schedule.stored legal inOrder) unpacked packed row
    column ⟨tile, schedule.perm.mem_iff.mpr member, window⟩ atSlot

/-- Slots without an element are zero. -/
theorem reorderb_padding (legal : blocks.Legal) (delivered : 0 < team)
    (positive : 0 < shape.elemSz) (schedule : Schedule blocks shape team)
    (unpacked packed : Bytes) {address : Nat}
    (below : address / shape.elemSz < imageElems blocks shape)
    (padding : ∀ p j, p < shape.k → j < shape.n →
      slotOf legal shape.n shape.k p j ≠ address / shape.elemSz) :
    dlpReorderRefReorderb schedule unpacked packed address = 0 :=
  packTiles_padding positive
    (fun _ inOrder => schedule.stored legal inOrder) unpacked packed
    (schedule.exists_region legal delivered below) padding

/-- Nothing is written outside the image. -/
theorem reorderb_frame (legal : blocks.Legal)
    (positive : 0 < shape.elemSz) (schedule : Schedule blocks shape team)
    (unpacked packed : Bytes) {address : Nat}
    (outside : imageElems blocks shape ≤ address / shape.elemSz) :
    dlpReorderRefReorderb schedule unpacked packed address =
      packed address := by
  apply packTiles_frame legal positive unpacked packed
  intro tile member inside
  have below := region_lt (schedule.placed legal member) inside
  exact absurd below (Nat.not_lt.mpr outside)

/-- All teams and all schedules produce the same buffer. -/
theorem reorderb_schedule_irrelevant {otherTeam : Nat} (legal : blocks.Legal)
    (delivered : 0 < team) (otherDelivered : 0 < otherTeam)
    (positive : 0 < shape.elemSz) (schedule : Schedule blocks shape team)
    (other : Schedule blocks shape otherTeam) (unpacked packed : Bytes) :
    dlpReorderRefReorderb schedule unpacked packed =
      dlpReorderRefReorderb other unpacked packed := by
  funext address
  by_cases below : address / shape.elemSz < imageElems blocks shape
  · by_cases stored : ∃ p j, p < shape.k ∧ j < shape.n ∧
        slotOf legal shape.n shape.k p j = address / shape.elemSz
    · rcases stored with ⟨p, j, row, column, atSlot⟩
      rw [reorderb_at_slot legal delivered positive schedule unpacked packed
          row column atSlot.symm,
        reorderb_at_slot legal otherDelivered positive other unpacked packed
          row column atSlot.symm]
    · have padding : ∀ p j, p < shape.k → j < shape.n →
          slotOf legal shape.n shape.k p j ≠ address / shape.elemSz :=
        fun p j row column atSlot => stored ⟨p, j, row, column, atSlot⟩
      rw [reorderb_padding legal delivered positive schedule unpacked packed
          below padding,
        reorderb_padding legal otherDelivered positive other unpacked packed
          below padding]
  · have outside := Nat.le_of_not_lt below
    rw [reorderb_frame legal positive schedule unpacked packed outside,
      reorderb_frame legal positive other unpacked packed outside]

/--
The packed image.  Some placement of the elements, the same for every team
and every schedule, is injective into the image; the reorder stores each
element at its place, zeroes every other slot of the image and writes nothing
else.  Each slot is filled by exactly one tile of the team.
-/
theorem reorderb_image
    (accepted : dlpReorderRefBlocksLegal blocks.NR blocks.minNR blocks.KC
      blocks.kFactor = true)
    (ncPositive : 0 < blocks.NC) (ncMultiple : blocks.NR ∣ blocks.NC)
    (positive : 0 < shape.elemSz) :
    let elems := dlpReorderRoundUp shape.n blocks.minNR *
      dlpReorderRoundUp shape.k blocks.kFactor
    ∃ slot : Nat → Nat → Nat,
      (∀ p j, p < shape.k → j < shape.n → slot p j < elems) ∧
      (∀ p j p2 j2, p < shape.k → j < shape.n → p2 < shape.k →
        j2 < shape.n → slot p j = slot p2 j2 → p = p2 ∧ j = j2) ∧
      (∀ team, 0 < team → ∀ (schedule : Schedule blocks shape team)
          (unpacked packed : Bytes),
        (∀ p j byte, p < shape.k → j < shape.n → byte < shape.elemSz →
          dlpReorderRefReorderb schedule unpacked packed
              (slot p j * shape.elemSz + byte) =
            unpacked
              ((p * shape.rsB + j * shape.csB) * shape.elemSz + byte)) ∧
        (∀ place byte, place < elems → byte < shape.elemSz →
          (∀ p j, p < shape.k → j < shape.n → slot p j ≠ place) →
          dlpReorderRefReorderb schedule unpacked packed
            (place * shape.elemSz + byte) = 0) ∧
        (∀ address, elems * shape.elemSz ≤ address →
          dlpReorderRefReorderb schedule unpacked packed address =
            packed address)) ∧
      (∀ team otherTeam, 0 < team → 0 < otherTeam →
        ∀ (schedule : Schedule blocks shape team)
          (other : Schedule blocks shape otherTeam)
          (unpacked packed : Bytes),
        dlpReorderRefReorderb schedule unpacked packed =
          dlpReorderRefReorderb other unpacked packed) ∧
      (∀ team, 0 < team →
        (∀ place, place < elems →
          ∃ tile, tile ∈ teamTiles blocks shape.n shape.k team ∧
            Region blocks tile place) ∧
        (teamTiles blocks shape.n shape.k team).Pairwise
          (Apart blocks)) := by
  have legal := Blocks.legal_of_accepted accepted ncPositive ncMultiple
  intro elems
  have total : elems = imageElems blocks shape := by
    simp only [elems, imageElems, dlpReorderRoundUp_eq legal.kFactor_pos,
      dlpReorderRoundUp_eq legal.widths.minNR_pos]
  rw [total]
  refine ⟨slotOf legal shape.n shape.k, fun p j row column =>
    slotOf_lt legal row column, fun p j p2 j2 row column row2 column2 =>
    slotOf_injective legal row column row2 column2, ?_, ?_, ?_⟩
  · intro team delivered schedule unpacked packed
    refine ⟨?_, ?_, ?_⟩
    · intro p j byte row column inside
      have split := element_of_byte positive
        (slotOf legal shape.n shape.k p j) inside
      rw [reorderb_at_slot legal delivered positive schedule unpacked packed
        row column split.1, split.2]
    · intro place byte below inside padding
      have split := element_of_byte positive place inside
      apply reorderb_padding legal delivered positive schedule
      · rw [split.1]
        exact below
      · rw [split.1]
        exact padding
    · intro address outside
      apply reorderb_frame legal positive schedule
      exact (Nat.le_div_iff_mul_le positive).mpr outside
  · intro team otherTeam delivered otherDelivered schedule other
    exact reorderb_schedule_irrelevant legal delivered otherDelivered
      positive schedule other
  · intro team delivered
    exact ⟨fun place below => TeamTiles.exists_region legal delivered below,
      teamTiles_pairwise_apart legal delivered⟩

end Image

/-- A blocking with a fringe, a tail and a padded last row block. -/
def smallBlocks : Blocks :=
  ⟨4, 2, 8, 4, 2⟩

/-- A 5 by 11 row-major matrix of two-byte elements. -/
def smallShape : MatrixShape :=
  ⟨11, 5, 11, 1, 2⟩

/-- The last element of the small matrix under a team of three. -/
theorem reorderb_image_small :
    ∃ slot : Nat → Nat → Nat,
      dlpReorderRefReorderb (Schedule.inOrder smallBlocks smallShape 3)
          (fun address => UInt8.ofNat address) (fun _ => 7)
          (slot 4 10 * 2 + 1) =
        UInt8.ofNat ((4 * 11 + 10 * 1) * 2 + 1) := by
  rcases @reorderb_image smallBlocks smallShape (by decide) (by decide)
      (by decide) (by decide) with ⟨slot, _, _, stored, _⟩
  exact ⟨slot, (stored 3 (by decide) (.inOrder smallBlocks smallShape 3)
    (fun address => UInt8.ofNat address) (fun _ => 7)).1 4 10 1 (by decide)
      (by decide) (by decide)⟩

/-! ## Round trip -/

section RoundTrip

variable {blocks : Blocks} {legal : blocks.Legal} {shape : MatrixShape}
    {tile : Tile}

/-- Unpacking a tile reads each of its elements from the element's slot. -/
theorem unpackTile_at_position (positive : 0 < shape.elemSz)
    (strides : shape.InjectiveStrides)
    (placed : tile.Placed legal shape.n shape.k) (packed unpacked : Bytes)
    {p j address : Nat} (window : InWindow tile p j)
    (atPosition : address / shape.elemSz =
      p * shape.rsB + j * shape.csB) :
    unpackTile blocks shape packed tile unpacked address =
      packed (slotOf legal shape.n shape.k p j * shape.elemSz +
        address % shape.elemSz) := by
  rw [unpackTile_eq_copyElems]
  apply copyElems_hit positive
  · rw [atPosition]
    exact List.mem_map.mpr
      ⟨_, (mem_tileMoves_iff (stored_of_placed placed)).mpr ⟨p, j, window, rfl⟩, rfl⟩
  · intro move member same
    rcases List.mem_map.mp member with ⟨_, inMoves, rfl⟩
    rcases (mem_tileMoves_iff (stored_of_placed placed)).mp inMoves with ⟨p2, j2, window2, rfl⟩
    rcases strides p2 j2 p j
        (row_lt_of_window placed window2)
        (column_lt_of_window placed window2)
        (row_lt_of_window placed window)
        (column_lt_of_window placed window) (same.trans atPosition) with
      ⟨rfl, rfl⟩
    rfl

/-- Unpacking a tile writes the positions of its elements and nothing else. -/
theorem unpackTile_patches (positive : 0 < shape.elemSz)
    (strides : shape.InjectiveStrides)
    (placed : tile.Placed legal shape.n shape.k) (packed : Bytes) :
    Patches (unpackTile blocks shape packed)
      (fun tile address => ∃ p j, InWindow tile p j ∧
        address / shape.elemSz = p * shape.rsB + j * shape.csB)
      (fun tile => unpackTile blocks shape packed tile fun _ => 0)
      tile where
  hit := by
    rintro unpacked address ⟨p, j, window, atPosition⟩
    rw [unpackTile_at_position positive strides placed packed unpacked window
        atPosition,
      unpackTile_at_position positive strides placed packed (fun _ => 0)
        window atPosition]
  frame := by
    intro unpacked address outside
    rw [unpackTile_eq_copyElems]
    apply copyElems_frame positive
    intro move member same
    rcases List.mem_map.mp member with ⟨_, inMoves, rfl⟩
    rcases (mem_tileMoves_iff (stored_of_placed placed)).mp inMoves with ⟨p, j, window, rfl⟩
    exact outside ⟨p, j, window, same.symm⟩

theorem unreorderb_at_position {team : Nat} (delivered : 0 < team)
    (legal : blocks.Legal) (positive : 0 < shape.elemSz)
    (strides : shape.InjectiveStrides)
    (schedule : Schedule blocks shape team) (packed unpacked : Bytes)
    {p j address : Nat} (row : p < shape.k) (column : j < shape.n)
    (atPosition : address / shape.elemSz =
      p * shape.rsB + j * shape.csB) :
    dlpReorderRefUnreorderb schedule packed unpacked address =
      packed (slotOf legal shape.n shape.k p j * shape.elemSz +
        address % shape.elemSz) := by
  apply foldl_patch_hit (fun tile member =>
    unpackTile_patches positive strides (schedule.placed legal member)
      packed)
  · rcases exists_window legal delivered row column with
      ⟨tile, member, window⟩
    exact ⟨tile, schedule.perm.mem_iff.mpr member, p, j, window,
      atPosition⟩
  · rintro tile member ⟨p2, j2, window, atOther⟩
    have placed := schedule.placed legal member
    rcases strides p2 j2 p j (row_lt_of_window placed window)
        (column_lt_of_window placed window) row column
        (atOther.symm.trans atPosition) with ⟨rfl, rfl⟩
    exact unpackTile_at_position positive strides placed packed _ window
      atPosition

theorem unreorderb_frame {team : Nat} (legal : blocks.Legal)
    (positive : 0 < shape.elemSz) (strides : shape.InjectiveStrides)
    (schedule : Schedule blocks shape team) (packed unpacked : Bytes)
    {address : Nat}
    (outside : ∀ p j, p < shape.k → j < shape.n →
      p * shape.rsB + j * shape.csB ≠ address / shape.elemSz) :
    dlpReorderRefUnreorderb schedule packed unpacked address =
      unpacked address := by
  apply foldl_patch_frame (fun tile member =>
    unpackTile_patches positive strides (schedule.placed legal member)
      packed)
  rintro tile member ⟨p, j, window, atPosition⟩
  have placed := schedule.placed legal member
  exact outside p j (row_lt_of_window placed window)
    (column_lt_of_window placed window) atPosition.symm

/--
Reorder followed by un-reorder restores the matrix window for every pair of
teams and schedules, and leaves the rest of the output matrix unchanged.
-/
theorem reorder_round_trip
    (accepted : dlpReorderRefBlocksLegal blocks.NR blocks.minNR blocks.KC
      blocks.kFactor = true)
    (ncPositive : 0 < blocks.NC) (ncMultiple : blocks.NR ∣ blocks.NC)
    (positive : 0 < shape.elemSz) (strides : shape.InjectiveStrides)
    {team1 team2 : Nat} (delivered1 : 0 < team1) (delivered2 : 0 < team2)
    (schedule1 : Schedule blocks shape team1)
    (schedule2 : Schedule blocks shape team2)
    (matrix packed out : Bytes) :
    let image := dlpReorderRefReorderb schedule1 matrix packed
    let result := dlpReorderRefUnreorderb schedule2 image out
    (∀ p j byte, p < shape.k → j < shape.n → byte < shape.elemSz →
      result ((p * shape.rsB + j * shape.csB) * shape.elemSz + byte) =
        matrix ((p * shape.rsB + j * shape.csB) * shape.elemSz + byte)) ∧
    (∀ position byte, byte < shape.elemSz →
      (∀ p j, p < shape.k → j < shape.n →
        p * shape.rsB + j * shape.csB ≠ position) →
      result (position * shape.elemSz + byte) =
        out (position * shape.elemSz + byte)) := by
  have legal := Blocks.legal_of_accepted accepted ncPositive ncMultiple
  intro image result
  constructor
  · intro p j byte row column inside
    have position := element_of_byte positive
      (p * shape.rsB + j * shape.csB) inside
    have slot := element_of_byte positive
      (slotOf legal shape.n shape.k p j) inside
    change dlpReorderRefUnreorderb schedule2 image out _ = _
    rw [unreorderb_at_position delivered2 legal positive strides schedule2
      image out row column position.1, position.2]
    change dlpReorderRefReorderb schedule1 matrix packed _ = _
    rw [reorderb_at_slot legal delivered1 positive schedule1 matrix packed
      row column slot.1, slot.2]
  · intro position byte inside outside
    apply unreorderb_frame legal positive strides schedule2
    rw [(element_of_byte positive position inside).1]
    exact outside

end RoundTrip

/-- Reorder with a team of three, un-reorder with a team of two. -/
theorem reorder_round_trip_small :
    dlpReorderRefUnreorderb (Schedule.inOrder smallBlocks smallShape 2)
        (dlpReorderRefReorderb (Schedule.inOrder smallBlocks smallShape 3)
          (fun address => UInt8.ofNat address) (fun _ => 7))
        (fun _ => 9) ((4 * 11 + 10 * 1) * 2 + 1) =
      UInt8.ofNat ((4 * 11 + 10 * 1) * 2 + 1) := by
  have strides : smallShape.InjectiveStrides := by
    intro p j p2 j2 _ column _ column2 equal
    change j < 11 at column
    change j2 < 11 at column2
    change p * 11 + j * 1 = p2 * 11 + j2 * 1 at equal
    omega
  exact (@reorder_round_trip smallBlocks smallShape (by decide) (by decide)
    (by decide) (by decide) strides 3 2 (by decide) (by decide)
    (.inOrder smallBlocks smallShape 3) (.inOrder smallBlocks smallShape 2)
    (fun address => UInt8.ofNat address) (fun _ => 7) (fun _ => 9)).1
      4 10 1 (by decide) (by decide) (by decide)

end AoclDlp.Layout.ReorderRef
