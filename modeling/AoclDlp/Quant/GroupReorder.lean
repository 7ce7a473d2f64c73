import AoclDlp.Layout.GroupTiles
import AoclDlp.Layout.S8s8s32
import AoclDlp.Quant.GroupSize

/-!
# The sym-quant reorder

`dlp_reorderb_nr64_s8s8s32o32_sym_quant` packs an int8 matrix strip by strip
and group by group.  Behind the image it keeps vectors of column sums: one
vector per group, or, where a single group covers all rows, one vector per
block of `KC` rows.

The pack kernel calls of a team may run in any order.  A schedule is a
permutation of the team's calls.
-/

namespace AoclDlp.Quant.GroupReorder

open AoclDlp.Config.BlockSize
open AoclDlp.Foundations.Accumulation
open AoclDlp.Foundations.Rounding
open AoclDlp.Foundations.Span
open AoclDlp.Layout.Chunk
open AoclDlp.Layout.GroupTiles
open AoclDlp.Layout.Panel
open AoclDlp.Layout.ReorderRef
open AoclDlp.Layout.S8s8s32
open AoclDlp.Layout.TeamTiles
open AoclDlp.Quant.GroupSize

/-! ## The reorder -/

/-- The block sizes of the reorder: a single group keeps the table's `KC`. -/
def reorderBlksz (table : DlpGemmBlockSize) (groupSize k : Nat) :
    DlpGemmBlockSize :=
  { table with
    KC := if groupSize ≠ k then dlpGemmAlignKcToGroup table.KC groupSize
      else table.KC }

/-- One call of the pack kernel: what it packs, and the byte address of its
first column sum. -/
structure PackCall where
  tile : Tile
  colSum : Nat
  deriving DecidableEq, Repr

/-- The panel whose sums a single group adds to; zero with several groups. -/
def sumPanel (KC groupSize k pc : Nat) : Nat :=
  if groupSize = k then pc / KC else 0

/-- The pack kernel call for one piece of a strip and one group; the column
sums start at the byte address `sumBase`. -/
def packCall (sumBase KC groupSize n k : Nat) (tile : Tile)
    (chunk : DlpReorderChunk) (piece : GroupPiece) : PackCall where
  tile := groupTile tile chunk piece
  colSum :=
    let nUpdated := dlpMakeMultipleOfN n 16
    sumBase +
      4 * (sumPanel KC groupSize k tile.pc * nUpdated +
        (tile.jc + chunk.colStart) + piece.group * nUpdated)

/-- The pack kernel calls of one `jc` and `pc` step. -/
def tileCalls (blksz : DlpGemmBlockSize) (sumBase groupSize n k : Nat)
    (tile : Tile) : List PackCall :=
  (stripLoop tile.nc0 blksz.NR (dlpMakeMultipleOfN tile.kc0 4) tile.nc0
      0).flatMap fun chunk =>
    (groupLoop groupSize tile.pc tile.kc0).map
      (packCall sumBase blksz.KC groupSize n k tile chunk)

/-- The pack kernel calls of a team, thread by thread. -/
def teamCalls (table : DlpGemmBlockSize) (groupSize n k team : Nat) :
    List PackCall :=
  let blksz := reorderBlksz table groupSize k
  (teamTiles (s8Blocks blksz) n k team).flatMap
    (tileCalls blksz (packBColumnSum n k) groupSize n k)

/-- An order in which a delivered team executes its pack kernel calls. -/
structure PackSchedule (table : DlpGemmBlockSize)
    (groupSize n k team : Nat) where
  order : List PackCall
  perm : order.Perm (teamCalls table groupSize n k team)

/-- The schedule that runs the threads one after the other. -/
def PackSchedule.inOrder (table : DlpGemmBlockSize)
    (groupSize n k team : Nat) : PackSchedule table groupSize n k team :=
  ⟨teamCalls table groupSize n k team, .refl _⟩

/-- What a pack kernel call adds to the column sums. -/
def callWrites (blksz : DlpGemmBlockSize) (rsB csB : Nat)
    (unpacked : Bytes) (call : PackCall) : List (Nat × BitVec 32) :=
  columnSumWrites blksz (rsB * call.tile.pc + call.tile.jc * csB)
    call.tile.nc0 call.tile.kc0 rsB csB call.colSum unpacked

/-- One pack kernel call. -/
def runPackCall (blksz : DlpGemmBlockSize) (n k rsB csB : Nat)
    (unpacked : Bytes) (call : PackCall) (buffer : ReorderBuffer) :
    ReorderBuffer where
  image :=
    packTile (s8Blocks blksz) (s8Shape n k rsB csB) unpacked call.tile
      buffer.image
  words := addAll (callWrites blksz rsB csB unpacked call) buffer.words

/-- `dlp_reorderb_nr64_s8s8s32o32_sym_quant` under a schedule of its team. -/
def dlpReorderbNr64S8s8s32o32SymQuant {table : DlpGemmBlockSize}
    {groupSize n k : Nat} {numThreads : Int} (rsB csB : Nat)
    (schedule : PackSchedule table groupSize n k (reorderThreads numThreads))
    (unpacked : Bytes) (buffer : ReorderBuffer) : ReorderBuffer :=
  let blksz := reorderBlksz table groupSize k
  let sumVecs := dlpGemmSymQuantSumVectors blksz.KC groupSize k
  schedule.order.foldl
    (fun current call =>
      runPackCall blksz n k rsB csB unpacked call current)
    { buffer with
      words := clearWords (packBColumnSum n k)
        (sumVecs * dlpMakeMultipleOfN n 16) buffer.words }

/-! ## Legal calls -/

/-- Block sizes of the table and a group size that the reorder accepts. -/
structure GroupLegal (table : DlpGemmBlockSize) (groupSize k : Nat) :
    Prop where
  table : S8Legal table
  group_pos : 0 < groupSize
  group_le : groupSize ≤ k
  whole_or_dvd : groupSize = k ∨ 4 ∣ groupSize

section Reorder

variable {table : DlpGemmBlockSize} {groupSize n k rsB csB : Nat}
    {numThreads : Int}

theorem GroupLegal.blksz (legal : GroupLegal table groupSize k) :
    S8Legal (reorderBlksz table groupSize k) where
  NR_pos := legal.table.NR_pos
  NR_dvd := legal.table.NR_dvd
  NC_pos := legal.table.NC_pos
  NC_dvd := legal.table.NC_dvd
  KC_pos := by
    unfold reorderBlksz
    dsimp only
    split
    · exact alignKc_pos legal.group_pos legal.table.KC_pos
    · exact legal.table.KC_pos
  KC_dvd := by
    unfold reorderBlksz
    dsimp only
    split
    next several =>
      exact (legal.whole_or_dvd.resolve_left several).trans
        (dvd_alignKc table.KC groupSize)
    next => exact legal.table.KC_dvd

theorem GroupLegal.whole (legal : GroupLegal table groupSize k) :
    k ≤ groupSize ∨ 4 ∣ groupSize :=
  legal.whole_or_dvd.imp_left Eq.ge

/-- With several groups the block of the reorder is made of whole groups. -/
theorem group_dvd_KC (several : groupSize ≠ k) :
    groupSize ∣ (reorderBlksz table groupSize k).KC := by
  unfold reorderBlksz
  dsimp only
  rw [if_pos several]
  exact dvd_alignKc table.KC groupSize

/-- A tile is packed chunk by chunk and group by group. -/
theorem tileCalls_eq {blksz : DlpGemmBlockSize} (legal : S8Legal blksz)
    (sumBase : Nat) (tile : Tile) :
    tileCalls blksz sumBase groupSize n k tile =
      (panelChunks tile.nc0 blksz.NR 16 (roundUp tile.kc0 4)).flatMap
        fun chunk =>
          (groupLoop groupSize tile.pc tile.kc0).map
            (packCall sumBase blksz.KC groupSize n k tile chunk) := by
  have widths : Widths blksz.NR 16 := legal.blocks.widths
  rw [tileCalls, strips_eq_panelChunks widths]
  rfl

/-- A call of the team, with the tile, the chunk and the group it packs. -/
theorem exists_of_mem_teamCalls (legal : GroupLegal table groupSize k)
    {team : Nat} {call : PackCall}
    (member : call ∈ teamCalls table groupSize n k team) :
    ∃ tile chunk piece,
      tile.Placed legal.blksz.blocks n k ∧
      chunk ∈ panelChunks tile.nc0 table.NR 16 (roundUp tile.kc0 4) ∧
      piece ∈ groupLoop groupSize tile.pc tile.kc0 ∧
      call = packCall (packBColumnSum n k)
        (reorderBlksz table groupSize k).KC groupSize n k tile chunk
        piece := by
  rcases List.mem_flatMap.mp member with ⟨tile, inTeam, inTile⟩
  rw [tileCalls_eq legal.blksz] at inTile
  rcases List.mem_flatMap.mp inTile with ⟨chunk, visited, inGroups⟩
  rcases List.mem_map.mp inGroups with ⟨piece, inLoop, rfl⟩
  exact ⟨tile, chunk, piece, teamTiles_placed legal.blksz.blocks inTeam,
    visited, inLoop, rfl⟩

theorem PackSchedule.stored (legal : GroupLegal table groupSize k)
    {team : Nat} (schedule : PackSchedule table groupSize n k team)
    {tile : Tile} (member : tile ∈ schedule.order.map PackCall.tile) :
    Stored legal.blksz.blocks n k tile := by
  rcases List.mem_map.mp member with ⟨call, inOrder, rfl⟩
  rcases exists_of_mem_teamCalls legal
      (schedule.perm.mem_iff.mp inOrder) with
    ⟨tile, chunk, piece, placed, visited, inLoop, rfl⟩
  exact stored_groupTile placed visited
    (rowCut_of_mem placed legal.group_pos legal.whole inLoop)

/-- The schedule packs every part of every tile. -/
theorem PackSchedule.mem_tiles (legal : GroupLegal table groupSize k)
    {team : Nat} (schedule : PackSchedule table groupSize n k team)
    {tile : Tile}
    (inTeam : tile ∈ teamTiles (s8Blocks (reorderBlksz table groupSize k))
      n k team)
    {chunk : DlpReorderChunk}
    (visited : chunk ∈ panelChunks tile.nc0 table.NR 16
      (roundUp tile.kc0 4))
    {piece : GroupPiece}
    (inLoop : piece ∈ groupLoop groupSize tile.pc tile.kc0) :
    groupTile tile chunk piece ∈ schedule.order.map PackCall.tile := by
  have called : packCall (packBColumnSum n k)
      (reorderBlksz table groupSize k).KC groupSize n k tile chunk piece ∈
        teamCalls table groupSize n k team := by
    refine List.mem_flatMap.mpr ⟨tile, inTeam, ?_⟩
    rw [tileCalls_eq legal.blksz]
    exact List.mem_flatMap.mpr
      ⟨chunk, visited, List.mem_map_of_mem inLoop⟩
  exact List.mem_map_of_mem (schedule.perm.mem_iff.mpr called)

/-- Every element is packed by a call of the schedule. -/
theorem PackSchedule.exists_window (legal : GroupLegal table groupSize k)
    {team : Nat} (delivered : 0 < team)
    (schedule : PackSchedule table groupSize n k team) {p j : Nat}
    (row : p < k) (column : j < n) :
    ∃ tile, tile ∈ schedule.order.map PackCall.tile ∧ InWindow tile p j := by
  rcases Layout.TeamTiles.exists_window legal.blksz.blocks delivered row column
    with ⟨tile, inTeam, window⟩
  have placed := teamTiles_placed legal.blksz.blocks inTeam
  rcases exists_groupTile_window placed legal.group_pos window with
    ⟨chunk, visited, piece, inLoop, inPart⟩
  exact ⟨_, schedule.mem_tiles legal inTeam visited inLoop, inPart⟩

/-- Every slot of the image is filled by a call of the schedule. -/
theorem PackSchedule.exists_region (legal : GroupLegal table groupSize k)
    {team : Nat} (delivered : 0 < team)
    (schedule : PackSchedule table groupSize n k team) {slot : Nat}
    (below : slot < roundUp n 16 * roundUp k 4) :
    ∃ tile, tile ∈ schedule.order.map PackCall.tile ∧
      Region (s8Blocks (reorderBlksz table groupSize k)) tile slot := by
  rcases Layout.TeamTiles.exists_region legal.blksz.blocks delivered below
    with ⟨tile, inTeam, inside⟩
  have placed := teamTiles_placed legal.blksz.blocks inTeam
  rcases exists_groupTile_region placed legal.group_pos legal.whole inside
    with ⟨chunk, visited, piece, inLoop, inPart⟩
  exact ⟨_, schedule.mem_tiles legal inTeam visited inLoop, inPart⟩

/-! ## The image -/

/-- The image is the one that packing the parts leaves. -/
theorem image_eq_packTiles
    (schedule : PackSchedule table groupSize n k (reorderThreads numThreads))
    (unpacked : Bytes) (buffer : ReorderBuffer) :
    (dlpReorderbNr64S8s8s32o32SymQuant rsB csB schedule unpacked
        buffer).image =
      packTiles (s8Blocks (reorderBlksz table groupSize k))
        (s8Shape n k rsB csB) unpacked (schedule.order.map PackCall.tile)
        buffer.image := by
  unfold dlpReorderbNr64S8s8s32o32SymQuant packTiles
  dsimp only
  generalize clearWords _ _ buffer.words = words
  induction schedule.order generalizing buffer words with
  | nil => rfl
  | cons call rest ih =>
      rw [List.map_cons, List.foldl_cons, List.foldl_cons]
      exact ih ⟨packTile _ _ unpacked call.tile buffer.image,
        buffer.words⟩ _

/-- Every element is stored at its slot, whatever the team. -/
theorem symQuantImage_at_slot (legal : GroupLegal table groupSize k)
    (schedule : PackSchedule table groupSize n k (reorderThreads numThreads))
    (unpacked : Bytes) (buffer : ReorderBuffer) {p j : Nat} (row : p < k)
    (column : j < n) :
    (dlpReorderbNr64S8s8s32o32SymQuant rsB csB schedule unpacked
        buffer).image (slotOf legal.blksz.blocks n k p j) =
      unpacked (p * rsB + j * csB) := by
  rw [image_eq_packTiles]
  exact s8Tiles_at_slot legal.blksz
    (fun _ member => schedule.stored legal member) unpacked buffer.image row
    column
    (schedule.exists_window legal (reorderThreads_pos numThreads) row column)

/-- Slots without an element are zero. -/
theorem symQuantImage_padding (legal : GroupLegal table groupSize k)
    (schedule : PackSchedule table groupSize n k (reorderThreads numThreads))
    (unpacked : Bytes) (buffer : ReorderBuffer) {slot : Nat}
    (below : slot < roundUp n 16 * roundUp k 4)
    (padding : ∀ p j, p < k → j < n →
      slotOf legal.blksz.blocks n k p j ≠ slot) :
    (dlpReorderbNr64S8s8s32o32SymQuant rsB csB schedule unpacked
        buffer).image slot = 0 := by
  rw [image_eq_packTiles]
  exact s8Tiles_padding legal.blksz
    (fun _ member => schedule.stored legal member) unpacked buffer.image
    (schedule.exists_region legal (reorderThreads_pos numThreads) below)
    padding

/-! ## The column sums -/

/-- How many rows share a column sum: a group, or, where one group covers all
rows, a block. -/
def sumUnit (KC groupSize k : Nat) : Nat :=
  if groupSize = k then KC else groupSize

/-- `128` times the sum of column `j` over the rows of the unit `v`. -/
def unitSum (unpacked : Bytes) (rsB csB k unit v j : Nat) : BitVec 32 :=
  128 * (((List.range k).filter fun p => p / unit = v).map fun p =>
    element unpacked rsB csB p j).sum

theorem unitSum_eq (unpacked : Bytes) (unit v j : Nat) :
    unitSum unpacked rsB csB k unit v j =
      ((List.range k).map fun p =>
        if p / unit = v then 128 * element unpacked rsB csB p j
        else 0).sum := by
  rw [unitSum, sum_map_filter, ← List.sum_map_mul_left]
  congr 1
  apply List.map_congr_left
  intro p _
  rw [mul_ite, mul_zero]

/-- The rows of a unit are consecutive. -/
theorem unitSum_eq_rows {unit v : Nat} (positive : 0 < unit)
    (below : v * unit < k) (unpacked : Bytes) (j : Nat) :
    unitSum unpacked rsB csB k unit v j =
      128 * ((List.range (min unit (k - v * unit))).map fun i =>
        element unpacked rsB csB (v * unit + i) j).sum := by
  have parts : List.range k = List.range' 0 (v * unit) ++
      (List.range' (v * unit) (min unit (k - v * unit)) ++
        List.range' (v * unit + min unit (k - v * unit))
          (k - (v * unit + min unit (k - v * unit)))) := by
    have joined (rest : Nat) : List.range' 0 (v * unit) ++
        List.range' (v * unit) rest = List.range (v * unit + rest) := by
      have whole := @List.range'_append_1 0 (v * unit) rest
      rw [Nat.zero_add] at whole
      rw [whole, List.range_eq_range']
    rw [List.range'_append_1, joined]
    congr 1
    omega
  have before : (List.range' 0 (v * unit)).filter
      (fun p => p / unit = v) = [] := by
    rw [List.filter_eq_nil_iff]
    intro p member
    have bound := (List.mem_range'_1.mp member).2
    have less := (Nat.div_lt_iff_lt_mul positive).mpr
      (show p < v * unit by omega)
    simpa using less.ne
  have inside : (List.range' (v * unit) (min unit (k - v * unit))).filter
      (fun p => p / unit = v) =
        List.range' (v * unit) (min unit (k - v * unit)) := by
    rw [List.filter_eq_self]
    intro p member
    have bounds := List.mem_range'_1.mp member
    rw [decide_eq_true_eq]
    apply Nat.div_eq_of_lt_le
    · exact bounds.1
    · rw [Nat.succ_mul]
      omega
  have after : (List.range' (v * unit + min unit (k - v * unit))
      (k - (v * unit + min unit (k - v * unit)))).filter
        (fun p => p / unit = v) = [] := by
    rw [List.filter_eq_nil_iff]
    intro p member
    have bounds := List.mem_range'_1.mp member
    have more := (Nat.le_div_iff_mul_le positive).mpr
      (show (v + 1) * unit ≤ p by rw [Nat.succ_mul]; omega)
    simpa using (Nat.lt_of_succ_le more).ne'
  rw [unitSum, parts, List.filter_append, List.filter_append, before, inside,
    after, List.nil_append, List.append_nil, List.range'_eq_map_range,
    List.map_map]
  rfl

/-- The rows of a call belong to the vector it adds to. -/
theorem unit_of_row (legal : GroupLegal table groupSize k) {tile : Tile}
    (placed : tile.Placed legal.blksz.blocks n k) {piece : GroupPiece}
    (inLoop : piece ∈ groupLoop groupSize tile.pc tile.kc0) {p : Nat}
    (inside : piece.rows.Has p) :
    p / sumUnit (reorderBlksz table groupSize k).KC groupSize k =
      sumPanel (reorderBlksz table groupSize k).KC groupSize k tile.pc +
        piece.group := by
  have group := group_of_row legal.group_pos placed.kc0_pos inLoop inside
  have cut := rowCut_of_mem placed legal.group_pos legal.whole inLoop
  have lower := cut.start_le.trans inside.1
  have upper := inside.2.trans_le cut.end_le
  unfold sumUnit sumPanel
  by_cases single : groupSize = k
  · have below : p < k :=
      upper.trans_le (stored_of_placed placed).row_end_le
    rw [Nat.div_eq_of_lt (single.symm ▸ below)] at group
    rw [if_pos single, if_pos single, ← group, Nat.add_zero]
    have height := placed.kc0_eq.trans_le (min_le_right _ _)
    have block := blockStart_eq placed.row_dvd lower
      (upper.trans_le (Nat.add_le_add_left height _))
    rw [← block]
    exact (Nat.mul_div_cancel _ legal.blksz.KC_pos).symm
  · rw [if_neg single, if_neg single, group, Nat.zero_add]

/-- The word to which a call adds the sum of one of its columns. -/
theorem packCall_word (sumBase KC : Nat) (tile : Tile)
    (chunk : DlpReorderChunk) (piece : GroupPiece) (col : Nat) :
    (packCall sumBase KC groupSize n k tile chunk piece).colSum + 4 * col =
      sumBase +
        4 * ((sumPanel KC groupSize k tile.pc + piece.group) *
            dlpMakeMultipleOfN n 16 + (tile.jc + chunk.colStart + col)) := by
  unfold packCall
  dsimp only
  ring

/-- What one call adds to the word of vector `v` and column `j`. -/
theorem call_added (legal : GroupLegal table groupSize k) (sumBase : Nat)
    (unpacked : Bytes) {tile : Tile}
    (placed : tile.Placed legal.blksz.blocks n k)
    {chunk : DlpReorderChunk}
    (visited : chunk ∈ panelChunks tile.nc0 table.NR 16
      (roundUp tile.kc0 4)) (piece : GroupPiece) {v j : Nat}
    (column : j < dlpMakeMultipleOfN n 16) :
    addedAt
        (callWrites (reorderBlksz table groupSize k) rsB csB unpacked
          (packCall sumBase (reorderBlksz table groupSize k).KC groupSize n k
            tile chunk piece))
        (sumBase + 4 * (v * dlpMakeMultipleOfN n 16 + j)) =
      if tile.jc + chunk.colStart ≤ j ∧
          j < tile.jc + chunk.colStart + chunk.cols then
        if sumPanel (reorderBlksz table groupSize k).KC groupSize k tile.pc +
            piece.group = v then
          ((List.range piece.kg0).map fun kr =>
            128 * element unpacked rsB csB (piece.kStart + kr) j).sum
        else 0
      else 0 := by
  have fits := placed.column_end_le
  have padded : n ≤ dlpMakeMultipleOfN n 16 := le_roundUp (Nat.succ_pos 15) n
  have inChunk :=
    (panelChunks_isChunk legal.blksz.blocks.widths visited).inside
  rw [callWrites, columnSumWrites_added legal.blksz]
  calc
    _ = ((List.range chunk.cols).map fun col =>
          if j = tile.jc + chunk.colStart + col then
            if sumPanel (reorderBlksz table groupSize k).KC groupSize k
                tile.pc + piece.group = v then
              ((List.range piece.kg0).map fun kr =>
                128 * element unpacked rsB csB (piece.kStart + kr)
                  (tile.jc + chunk.colStart + col)).sum
            else 0
          else 0).sum := by
      congr 1
      apply List.map_congr_left
      intro col inside
      have inColumns : col < chunk.cols := List.mem_range.mp inside
      have inTable : tile.jc + chunk.colStart + col <
          dlpMakeMultipleOfN n 16 := by omega
      change (if _ = (packCall sumBase _ groupSize n k tile chunk piece).colSum +
          4 * col then 128 * ((List.range piece.kg0).map fun kr =>
            widen (unpacked (rsB * piece.kStart +
              (tile.jc + chunk.colStart) * csB +
                (kr * rsB + col * csB)))).sum else 0) = _
      have source (kr : Nat) : rsB * piece.kStart +
          (tile.jc + chunk.colStart) * csB + (kr * rsB + col * csB) =
            (piece.kStart + kr) * rsB +
              (tile.jc + chunk.colStart + col) * csB := by
        ring
      have word : sumBase +
            4 * (v * dlpMakeMultipleOfN n 16 + j) =
          (packCall sumBase (reorderBlksz table groupSize k).KC groupSize n k
            tile chunk piece).colSum + 4 * col ↔
          v = sumPanel (reorderBlksz table groupSize k).KC groupSize k
              tile.pc + piece.group ∧
            j = tile.jc + chunk.colStart + col := by
        rw [packCall_word, Nat.add_left_cancel_iff,
          Nat.mul_right_inj (by decide), mul_add_eq_iff column inTable]
      by_cases atColumn : j = tile.jc + chunk.colStart + col
      · rw [if_pos atColumn]
        by_cases atVector : sumPanel (reorderBlksz table groupSize k).KC
            groupSize k tile.pc + piece.group = v
        · rw [if_pos atVector, if_pos (word.mpr ⟨atVector.symm, atColumn⟩),
            List.sum_map_mul_left]
          simp only [source]
          rfl
        · rw [if_neg atVector,
            if_neg fun same => atVector (word.mp same).1.symm]
      · rw [if_neg atColumn, if_neg fun same => atColumn (word.mp same).2]
    _ = _ := by
      rw [sum_range_indicator]
      by_cases inside : tile.jc + chunk.colStart ≤ j ∧
          j < tile.jc + chunk.colStart + chunk.cols
      · rw [if_pos inside, if_pos inside, Nat.add_sub_of_le inside.1]
      · rw [if_neg inside, if_neg inside]

/-- `128` times the sum of column `j` over the rows of a tile that belong to
the unit `v`. -/
def tileRows (unpacked : Bytes) (rsB csB unit v j : Nat) (tile : Tile) :
    BitVec 32 :=
  ((List.range tile.kc0).map fun kr =>
    if (tile.pc + kr) / unit = v then
      128 * element unpacked rsB csB (tile.pc + kr) j
    else 0).sum

/-- What the calls for one chunk of a tile add, over all groups. -/
theorem chunkCalls_added (legal : GroupLegal table groupSize k)
    (sumBase : Nat) (unpacked : Bytes) {tile : Tile}
    (placed : tile.Placed legal.blksz.blocks n k) {chunk : DlpReorderChunk}
    (visited : chunk ∈ panelChunks tile.nc0 table.NR 16
      (roundUp tile.kc0 4)) {v j : Nat}
    (column : j < dlpMakeMultipleOfN n 16) :
    ((groupLoop groupSize tile.pc tile.kc0).map fun piece =>
        addedAt
          (callWrites (reorderBlksz table groupSize k) rsB csB unpacked
            (packCall sumBase (reorderBlksz table groupSize k).KC groupSize n
              k tile chunk piece))
          (sumBase +
            4 * (v * dlpMakeMultipleOfN n 16 + j))).sum =
      if tile.jc + chunk.colStart ≤ j ∧
          j < tile.jc + chunk.colStart + chunk.cols then
        tileRows unpacked rsB csB
          (sumUnit (reorderBlksz table groupSize k).KC groupSize k) v j tile
      else 0 := by
  have groups : Chain tile.pc
      ((groupLoop groupSize tile.pc tile.kc0).map GroupPiece.rows)
      (tile.pc + tile.kc0) :=
    groupLoop_chain legal.group_pos placed.kc0_pos
  have rows := sum_chain_class groups
    (fun piece => sumPanel (reorderBlksz table groupSize k).KC groupSize k
      tile.pc + piece.group = v)
    (fun p => p / sumUnit (reorderBlksz table groupSize k).KC groupSize k =
      v)
    (fun piece inLoop p inside => by
      rw [unit_of_row legal placed inLoop inside])
    fun p => 128 * element unpacked rsB csB p j
  rw [Nat.add_sub_cancel_left, List.range'_eq_map_range, List.map_map]
    at rows
  simp only [call_added legal sumBase unpacked placed visited _ column]
  by_cases inside : tile.jc + chunk.colStart ≤ j ∧
      j < tile.jc + chunk.colStart + chunk.cols
  · simp only [if_pos inside]
    exact rows
  · simp only [if_neg inside]
    simp

/-- What the calls of one tile add. -/
theorem tileCalls_added (legal : GroupLegal table groupSize k)
    (sumBase : Nat) (unpacked : Bytes) {tile : Tile}
    (placed : tile.Placed legal.blksz.blocks n k) {v j : Nat}
    (column : j < dlpMakeMultipleOfN n 16) :
    ((tileCalls (reorderBlksz table groupSize k) sumBase groupSize n k
        tile).map
        fun call =>
          addedAt
            (callWrites (reorderBlksz table groupSize k) rsB csB unpacked
              call)
            (sumBase +
              4 * (v * dlpMakeMultipleOfN n 16 + j))).sum =
      if tile.jc ≤ j ∧ j < tile.jc + tile.nc0 then
        tileRows unpacked rsB csB
          (sumUnit (reorderBlksz table groupSize k).KC groupSize k) v j tile
      else 0 := by
  have columns := (panelChunks_chain legal.blksz.blocks.widths tile.nc0
    (roundUp tile.kc0 4)).shift tile.jc
  have chunks := sum_chain_has columns j
    (tileRows unpacked rsB csB
      (sumUnit (reorderBlksz table groupSize k).KC groupSize k) v j tile)
  rw [List.map_map, List.map_map, Nat.add_zero] at chunks
  rw [← chunks, tileCalls_eq legal.blksz, sum_map_flatMap]
  congr 1
  apply List.map_congr_left
  intro chunk visited
  rw [List.map_map]
  exact chunkCalls_added legal sumBase unpacked placed visited column

/-- The tiles of a team cover every row of a column once. -/
theorem teamRows_sum {blocks : Blocks} (legal : blocks.Legal) {team : Nat}
    (delivered : 0 < team) (unpacked : Bytes) (unit v j : Nat) :
    ((teamTiles blocks n k team).map fun tile =>
        if tile.jc ≤ j ∧ j < tile.jc + tile.nc0 then
          tileRows unpacked rsB csB unit v j tile
        else 0).sum =
      if j < n then unitSum unpacked rsB csB k unit v j else 0 := by
  have rows : Chain 0 (pcLoop k blocks.KC k 0) k :=
    pcLoop_chain legal.KC_pos k (Nat.le_add_left k 0) (Nat.zero_le k)
  have allRows := sum_chain rows fun p =>
    if p / unit = v then 128 * element unpacked rsB csB p j else 0
  have oneStep := sum_chain_has (teamSteps_chain legal delivered (n := n)) j
    (unitSum unpacked rsB csB k unit v j)
  rw [List.map_map] at oneStep
  rw [Nat.sub_zero, ← List.range_eq_range', ← unitSum_eq] at allRows
  simp only [Nat.zero_le, true_and] at oneStep
  rw [teamTiles_eq_steps, sum_map_flatMap, ← oneStep]
  congr 1
  apply List.map_congr_left
  intro step _
  rw [List.map_map]
  by_cases inside : step.jc ≤ j ∧ j < step.jc + step.nc0
  · refine Eq.trans ?_ (if_pos inside).symm
    rw [← allRows]
    congr 1
    apply List.map_congr_left
    intro row _
    exact if_pos inside
  · refine Eq.trans (List.sum_eq_zero ?_) (if_neg inside).symm
    intro term member
    rcases List.mem_map.mp member with ⟨row, _, rfl⟩
    exact if_neg inside

theorem symQuantWords_eq_addAll
    (schedule : PackSchedule table groupSize n k (reorderThreads numThreads))
    (unpacked : Bytes) (buffer : ReorderBuffer) :
    (dlpReorderbNr64S8s8s32o32SymQuant rsB csB schedule unpacked
        buffer).words =
      addAll
        (schedule.order.flatMap
          (callWrites (reorderBlksz table groupSize k) rsB csB unpacked))
        (clearWords (packBColumnSum n k)
          (dlpGemmSymQuantSumVectors (reorderBlksz table groupSize k).KC
            groupSize k * dlpMakeMultipleOfN n 16) buffer.words) := by
  unfold dlpReorderbNr64S8s8s32o32SymQuant addAll
  dsimp only
  rw [List.foldl_flatMap]
  generalize clearWords _ _ buffer.words = words
  induction schedule.order generalizing buffer words with
  | nil => rfl
  | cons call rest ih =>
      rw [List.foldl_cons, List.foldl_cons]
      exact ih ⟨packTile _ _ unpacked call.tile buffer.image, words⟩ _

/-- A vector and a column address one of the cleared words. -/
theorem sumCell_lt {vectors columns v j : Nat} (vector : v < vectors)
    (column : j < columns) : v * columns + j < vectors * columns := by
  have next := Nat.mul_le_mul_right columns vector
  rw [Nat.succ_mul] at next
  omega

/--
Each stored word is `128` times the sum of its column over its unit of rows,
whatever the team and the schedule; the words of padding columns stay zero.
-/
theorem symQuantWords_at_sum (legal : GroupLegal table groupSize k)
    (schedule : PackSchedule table groupSize n k (reorderThreads numThreads))
    (unpacked : Bytes) (buffer : ReorderBuffer) {v j : Nat}
    (vector : v < dlpGemmSymQuantSumVectors
      (reorderBlksz table groupSize k).KC groupSize k)
    (column : j < dlpMakeMultipleOfN n 16) :
    (dlpReorderbNr64S8s8s32o32SymQuant rsB csB schedule unpacked
        buffer).words
        (packBColumnSum n k + 4 * (v * dlpMakeMultipleOfN n 16 + j)) =
      if j < n then
        unitSum unpacked rsB csB k
          (sumUnit (reorderBlksz table groupSize k).KC groupSize k) v j
      else 0 := by
  rw [symQuantWords_eq_addAll, addAll_apply,
    clearWords_apply (sumCell_lt vector column), zero_add, addedAt_perm (schedule.perm.flatMap_right _), addedAt,
    sum_map_flatMap, teamCalls, sum_map_flatMap,
    ← teamRows_sum legal.blksz.blocks (reorderThreads_pos numThreads)]
  congr 1
  apply List.map_congr_left
  intro tile inTeam
  exact tileCalls_added legal _ unpacked
    (teamTiles_placed legal.blksz.blocks inTeam) column

end Reorder

end AoclDlp.Quant.GroupReorder
