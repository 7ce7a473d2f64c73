import AoclDlp.Layout.TeamTiles

/-!
# Tiles packed strip by strip and group by group

The symmetric-quantisation reorders do not hand a whole tile to the pack
kernel.  They walk its columns in strips of `NR`, cut a narrow last strip into
a piece of whole sixteens and a remainder, and pack each piece one
quantisation group at a time; the drivers move the destination pointer.

The pieces of the strips are the chunks of the reference walk and the groups
chain over the rows of the tile, so every packed part stores its elements
where packing the whole tile would have stored them.
-/

namespace AoclDlp.Layout.GroupTiles

open AoclDlp.Foundations.Rounding
open AoclDlp.Foundations.Span
open AoclDlp.Layout.Chunk
open AoclDlp.Layout.Panel
open AoclDlp.Layout.TeamTiles

/-! ## The loops of the source -/

/-- The pieces of one strip: its whole sixteens and the columns left. -/
def stripPieces (NR kc0Updated nr0 jr : Nat) : List DlpReorderChunk :=
  if nr0 < NR then
    let nrMult16 := nr0 / 16 * 16
    let nr0Rem := nr0 % 16
    (if 0 < nrMult16 then
        [⟨jr, nrMult16, nrMult16, jr * kc0Updated⟩]
      else []) ++
    (if 0 < nr0Rem then
        [⟨jr + nrMult16, nr0Rem, 16,
          jr * kc0Updated + nrMult16 * kc0Updated⟩]
      else [])
  else [⟨jr, NR, NR, jr * kc0Updated⟩]

/-- The `jr` loop over the strips of a tile. -/
def stripLoop (nc0 NR kc0Updated : Nat) : Nat → Nat → List DlpReorderChunk
  | 0, _ => []
  | fuel + 1, jr =>
      if jr < nc0 then
        stripPieces NR kc0Updated (min (nc0 - jr) NR) jr ++
          stripLoop nc0 NR kc0Updated fuel (jr + NR)
      else []

/-- One iteration of the group loop. -/
structure GroupPiece where
  group : Nat
  kStart : Nat
  kg0 : Nat
  deriving DecidableEq, Repr

/-- The rows of a group inside the block of `kc0` rows from `pc`. -/
def groupPiece (groupSize pc kc0 group : Nat) : GroupPiece :=
  let kStart := max (group * groupSize) pc
  let kEnd := min ((group + 1) * groupSize - 1) (pc + kc0 - 1)
  ⟨group, kStart, kEnd - kStart + 1⟩

/-- The group loop over the block of `kc0` rows from `pc`. -/
def groupLoop (groupSize pc kc0 : Nat) : List GroupPiece :=
  let groupStart := pc / groupSize
  let groupEnd := (pc + kc0 - 1) / groupSize
  (List.range' groupStart (groupEnd + 1 - groupStart)).map
    (groupPiece groupSize pc kc0)

/-- The part of a tile that one pack kernel call handles. -/
def groupTile (tile : Tile) (chunk : DlpReorderChunk) (piece : GroupPiece) :
    Tile where
  jc := tile.jc + chunk.colStart
  nc0 := chunk.cols
  pc := piece.kStart
  kc0 := piece.kg0
  off := tile.off + chunk.offset + (piece.kStart - tile.pc) * chunk.slot

/-- The strips of a tile, as tiles of their own; the `jr` loop steps like the
`pc` loop. -/
def stripTiles (blocks : Blocks) (tile : Tile) : List Tile :=
  (pcLoop tile.nc0 blocks.NR tile.nc0 0).map fun strip =>
    tile.slice blocks strip.start (strip.start + strip.width)

/-! ## The pieces of the strips are the chunks -/

theorem stripLoop_of_done {nc0 NR kc0Updated jr : Nat} (fuel : Nat)
    (done : nc0 ≤ jr) : stripLoop nc0 NR kc0Updated fuel jr = [] := by
  cases fuel with
  | zero => rfl
  | succ fuel =>
      unfold stripLoop
      exact if_neg (Nat.not_lt.mpr done)

theorem chunkLoop_of_done {nc0 NR minNR kc0Padded : Nat}
    {chunk : DlpReorderChunk} (fuel : Nat)
    (done : nc0 ≤ chunk.colStart + chunk.cols) :
    chunkLoop nc0 NR minNR kc0Padded fuel chunk = [] := by
  cases fuel with
  | zero => rfl
  | succ fuel =>
      unfold chunkLoop
      rw [dlpReorderChunkNext_of_done done]

/-- A full strip is one chunk. -/
theorem chunkNext_full {nc0 NR kc0Padded jr : Nat} {chunk : DlpReorderChunk}
    (widths : Widths NR 16) (fits : jr + NR ≤ nc0)
    (start : chunk.colStart + chunk.cols = jr)
    (offset : chunk.offset + chunk.slot * kc0Padded = jr * kc0Padded) :
    dlpReorderChunkNext chunk nc0 NR 16 kc0Padded =
      some ⟨jr, NR, NR, jr * kc0Padded⟩ := by
  have positive := widths.NR_pos
  unfold dlpReorderChunkNext
  dsimp only
  rw [start, offset, if_neg (by omega), if_neg (by omega),
    if_pos (by omega)]

/-- The whole sixteens of a narrow strip are one chunk. -/
theorem chunkNext_fringe {nc0 NR kc0Padded jr : Nat}
    {chunk : DlpReorderChunk} (widths : Widths NR 16) (narrow : nc0 < jr + NR)
    (fringe : jr + 16 ≤ nc0)
    (start : chunk.colStart + chunk.cols = jr)
    (offset : chunk.offset + chunk.slot * kc0Padded = jr * kc0Padded) :
    dlpReorderChunkNext chunk nc0 NR 16 kc0Padded =
      some ⟨jr, (nc0 - jr) / 16 * 16, (nc0 - jr) / 16 * 16,
        jr * kc0Padded⟩ := by
  have positive := widths.NR_pos
  unfold dlpReorderChunkNext
  dsimp only
  rw [start, offset, if_neg (by omega), if_neg (by omega),
    if_neg (by omega), if_pos (by omega)]

/-- The columns left are one chunk in a slot of sixteen. -/
theorem chunkNext_tail {nc0 NR kc0Padded jr : Nat} {chunk : DlpReorderChunk}
    (widths : Widths NR 16) (short : nc0 < jr + 16) (below : jr < nc0)
    (start : chunk.colStart + chunk.cols = jr)
    (offset : chunk.offset + chunk.slot * kc0Padded = jr * kc0Padded) :
    dlpReorderChunkNext chunk nc0 NR 16 kc0Padded =
      some ⟨jr, nc0 - jr, 16, jr * kc0Padded⟩ := by
  have positive := widths.NR_pos
  have wide := widths.minNR_le
  unfold dlpReorderChunkNext
  dsimp only
  rw [start, offset, if_neg (by omega), if_neg (by omega),
    if_neg (by omega), if_neg (by omega)]

/-- A narrow strip ends the tile. -/
theorem stripPieces_eq_chunkLoop {nc0 NR kc0Updated jr fuel : Nat}
    {chunk : DlpReorderChunk} (widths : Widths NR 16)
    (narrow : nc0 < jr + NR) (below : jr < nc0)
    (start : chunk.colStart + chunk.cols = jr)
    (offset : chunk.offset + chunk.slot * kc0Updated = jr * kc0Updated)
    (enough : nc0 ≤ jr + fuel) :
    stripPieces NR kc0Updated (nc0 - jr) jr =
      chunkLoop nc0 NR 16 kc0Updated fuel chunk := by
  have rest := Nat.div_add_mod (nc0 - jr) 16
  unfold stripPieces
  rw [if_pos (by omega)]
  dsimp only
  cases fuel with
  | zero => omega
  | succ fuel =>
      by_cases fringe : jr + 16 ≤ nc0
      · rw [if_pos (by omega), chunkLoop,
          chunkNext_fringe widths narrow fringe start offset]
        by_cases tail : 0 < (nc0 - jr) % 16
        · cases fuel with
          | zero => omega
          | succ fuel =>
              have next : dlpReorderChunkNext
                  ⟨jr, (nc0 - jr) / 16 * 16, (nc0 - jr) / 16 * 16,
                    jr * kc0Updated⟩ nc0 NR 16 kc0Updated =
                  some ⟨jr + (nc0 - jr) / 16 * 16,
                    nc0 - (jr + (nc0 - jr) / 16 * 16), 16,
                    (jr + (nc0 - jr) / 16 * 16) * kc0Updated⟩ :=
                chunkNext_tail widths (by omega) (by omega) rfl
                  (Nat.add_mul _ _ _).symm
              dsimp only
              rw [if_pos tail, chunkLoop, next]
              dsimp only
              rw [chunkLoop_of_done fuel (by dsimp only; omega)]
              have live : (nc0 - jr) % 16 =
                  nc0 - (jr + (nc0 - jr) / 16 * 16) := by omega
              rw [live, Nat.add_mul]
              rfl
        · dsimp only
          rw [if_neg tail, chunkLoop_of_done fuel (by dsimp only; omega)]
          rfl
      · rw [if_neg (by omega), if_pos (by omega), chunkLoop,
          chunkNext_tail widths (by omega) below start offset]
        dsimp only
        rw [chunkLoop_of_done fuel (by dsimp only; omega)]
        have none : (nc0 - jr) / 16 * 16 = 0 := by omega
        have whole : (nc0 - jr) % 16 = nc0 - jr := by omega
        rw [none, whole, Nat.zero_mul, Nat.add_zero, Nat.add_zero]
        rfl

theorem stripLoop_eq_chunkLoop {nc0 NR kc0Updated : Nat}
    (widths : Widths NR 16) (fuel other : Nat) {jr : Nat}
    {chunk : DlpReorderChunk}
    (start : chunk.colStart + chunk.cols = jr)
    (offset : chunk.offset + chunk.slot * kc0Updated = jr * kc0Updated)
    (enough : nc0 ≤ jr + fuel) (otherEnough : nc0 ≤ jr + other) :
    stripLoop nc0 NR kc0Updated fuel jr =
      chunkLoop nc0 NR 16 kc0Updated other chunk := by
  have positive := widths.NR_pos
  induction fuel generalizing other jr chunk with
  | zero =>
      rw [chunkLoop_of_done other (by omega)]
      rfl
  | succ fuel ih =>
      unfold stripLoop
      by_cases below : jr < nc0
      · rw [if_pos below]
        by_cases full : jr + NR ≤ nc0
        · cases other with
          | zero => omega
          | succ other =>
              have rest : stripLoop nc0 NR kc0Updated fuel (jr + NR) =
                  chunkLoop nc0 NR 16 kc0Updated other
                    ⟨jr, NR, NR, jr * kc0Updated⟩ :=
                ih other rfl (Nat.add_mul _ _ _).symm (by omega) (by omega)
              rw [chunkLoop, chunkNext_full widths full start offset,
                min_eq_right (by omega), stripPieces,
                if_neg (lt_irrefl NR), rest]
              rfl
        · rw [min_eq_left (by omega), stripLoop_of_done fuel (by omega),
            List.append_nil]
          exact stripPieces_eq_chunkLoop widths (by omega) below start
            offset otherEnough
      · rw [if_neg below, chunkLoop_of_done other (by omega)]

/-- The strips of a tile pack the chunks of the reference walk. -/
theorem strips_eq_panelChunks {nc0 NR kc0Updated : Nat}
    (widths : Widths NR 16) :
    stripLoop nc0 NR kc0Updated nc0 0 =
      panelChunks nc0 NR 16 kc0Updated :=
  stripLoop_eq_chunkLoop widths nc0 nc0 rfl (by simp [dlpReorderChunkFirst])
    (Nat.le_add_left nc0 0) (Nat.le_add_left nc0 0)

/-! ## The groups chain over the rows -/

/-- The rows of one iteration of the group loop. -/
def GroupPiece.rows (piece : GroupPiece) : Piece :=
  ⟨piece.kStart, piece.kg0⟩

/-- Where the rows of a group begin, inside the block. -/
def groupCut (groupSize pc kc0 group : Nat) : Nat :=
  min (max (group * groupSize) pc) (pc + kc0)

section Groups

variable {groupSize pc kc0 : Nat}

/-- A group of the loop meets the block. -/
theorem group_bounds (positive : 0 < groupSize) (nonempty : 0 < kc0)
    {group : Nat} (first : pc / groupSize ≤ group)
    (last : group ≤ (pc + kc0 - 1) / groupSize) :
    group * groupSize < pc + kc0 ∧ pc < (group + 1) * groupSize := by
  have lower := Nat.mul_le_of_le_div groupSize group (pc + kc0 - 1) last
  have upper := (Nat.div_lt_iff_lt_mul positive).mp
    (Nat.lt_succ_of_le first)
  exact ⟨by omega, upper⟩

theorem groupPiece_rows (positive : 0 < groupSize) (nonempty : 0 < kc0)
    {group : Nat} (first : pc / groupSize ≤ group)
    (last : group ≤ (pc + kc0 - 1) / groupSize) :
    groupCut groupSize pc kc0 group < groupCut groupSize pc kc0 (group + 1) ∧
      groupPiece groupSize pc kc0 group =
        ⟨group, groupCut groupSize pc kc0 group,
          groupCut groupSize pc kc0 (group + 1) -
            groupCut groupSize pc kc0 group⟩ := by
  rcases group_bounds positive nonempty first last with ⟨lower, upper⟩
  unfold groupPiece groupCut
  rw [Nat.succ_mul] at *
  refine ⟨by omega, ?_⟩
  dsimp only
  congr 1
  · omega
  · omega

/-- The groups cover the rows of the block, one after the other. -/
theorem groupLoop_chain (positive : 0 < groupSize) (nonempty : 0 < kc0) :
    Chain pc ((groupLoop groupSize pc kc0).map GroupPiece.rows)
      (pc + kc0) := by
  have ordered : pc / groupSize ≤ (pc + kc0 - 1) / groupSize :=
    Nat.div_le_div_right (by omega)
  have workers : ∀ way,
      way < (pc + kc0 - 1) / groupSize + 1 - pc / groupSize →
      Chain (groupCut groupSize pc kc0 (pc / groupSize + way))
        [(groupPiece groupSize pc kc0 (pc / groupSize + way)).rows]
        (groupCut groupSize pc kc0 (pc / groupSize + (way + 1))) := by
    intro way below
    rcases groupPiece_rows positive nonempty (Nat.le_add_right _ way)
        (show pc / groupSize + way ≤ _ by omega) with ⟨grows, rows⟩
    rw [rows, ← Nat.add_assoc]
    apply Chain.cons (Nat.sub_pos_of_lt grows)
    rw [Nat.add_sub_of_le grows.le]
    exact .nil _
  have chain := Chain.flatMap_range _ workers
  have first : groupCut groupSize pc kc0 (pc / groupSize + 0) = pc := by
    have below := Nat.div_mul_le_self pc groupSize
    unfold groupCut
    rw [Nat.add_zero]
    omega
  have last : groupCut groupSize pc kc0 (pc / groupSize +
      ((pc + kc0 - 1) / groupSize + 1 - pc / groupSize)) = pc + kc0 := by
    have above := Nat.lt_mul_of_div_lt
      (Nat.lt_succ_self ((pc + kc0 - 1) / groupSize)) positive
    unfold groupCut
    rw [Nat.add_sub_of_le (by omega)]
    rw [Nat.succ_eq_add_one] at above
    omega
  rw [first, last] at chain
  rw [groupLoop, List.map_map, List.range'_eq_map_range, List.map_map,
    List.map_eq_flatMap]
  exact chain

theorem groupLoop_mem (positive : 0 < groupSize) (nonempty : 0 < kc0)
    {piece : GroupPiece} (member : piece ∈ groupLoop groupSize pc kc0) :
    (pc / groupSize ≤ piece.group ∧
      piece.group ≤ (pc + kc0 - 1) / groupSize) ∧
      piece.kStart = max (piece.group * groupSize) pc ∧
      piece.kStart + piece.kg0 =
        min ((piece.group + 1) * groupSize) (pc + kc0) := by
  rcases List.mem_map.mp member with ⟨group, inRange, rfl⟩
  have range := List.mem_range'_1.mp inRange
  have first := range.1
  have last : group ≤ (pc + kc0 - 1) / groupSize := by omega
  rcases group_bounds positive nonempty first last with ⟨lower, upper⟩
  refine ⟨⟨first, last⟩, rfl, ?_⟩
  unfold groupPiece
  dsimp only
  rw [Nat.succ_mul] at *
  omega

/-- The rows of an iteration belong to its group. -/
theorem group_of_row (positive : 0 < groupSize) (nonempty : 0 < kc0)
    {piece : GroupPiece} (member : piece ∈ groupLoop groupSize pc kc0)
    {p : Nat} (inside : piece.rows.Has p) : p / groupSize = piece.group := by
  rcases groupLoop_mem positive nonempty member with ⟨-, start, stop⟩
  have lower : piece.kStart ≤ p := inside.1
  have upper : p < piece.kStart + piece.kg0 := inside.2
  apply Nat.div_eq_of_lt_le
  · omega
  · omega

end Groups

/-! ## Parts of a tile -/

section Parts

variable {blocks : Blocks} {legal : blocks.Legal} {n k groupSize : Nat}
    {tile : Tile} {chunk : DlpReorderChunk} {piece : GroupPiece}

/-- Rows cut out of a tile at whole groups of interleaved rows. -/
structure RowCut (kFactor k : Nat) (tile : Tile) (piece : GroupPiece) :
    Prop where
  start_le : tile.pc ≤ piece.kStart
  nonempty : 0 < piece.kg0
  end_le : piece.kStart + piece.kg0 ≤ tile.pc + tile.kc0
  start_dvd : kFactor ∣ piece.kStart
  ends : kFactor ∣ piece.kg0 ∨ piece.kStart + piece.kg0 = k

theorem kFactor_dvd_pc (placed : tile.Placed legal n k) :
    blocks.kFactor ∣ tile.pc :=
  legal.kFactor_dvd.trans placed.row_dvd

/-- A tile ends with the matrix or at a whole group of interleaved rows. -/
theorem tile_row_end (placed : tile.Placed legal n k) :
    blocks.kFactor ∣ tile.pc + tile.kc0 ∨ tile.pc + tile.kc0 = k := by
  have below := placed.row_lt
  rw [placed.kc0_eq]
  rcases Nat.le_total (k - tile.pc) blocks.KC with last | inner
  · rw [min_eq_left last]
    exact Or.inr (Nat.add_sub_of_le below.le)
  · rw [min_eq_right inner]
    exact Or.inl (Nat.dvd_add (kFactor_dvd_pc placed) legal.kFactor_dvd)

/-- The group loop cuts a tile at whole groups of interleaved rows. -/
theorem rowCut_of_mem (placed : tile.Placed legal n k)
    (positive : 0 < groupSize)
    (whole : k ≤ groupSize ∨ blocks.kFactor ∣ groupSize)
    (member : piece ∈ groupLoop groupSize tile.pc tile.kc0) :
    RowCut blocks.kFactor k tile piece := by
  have rowsLe := (stored_of_placed placed).row_end_le
  have chain : Chain tile.pc _ (tile.pc + tile.kc0) :=
    groupLoop_chain positive placed.kc0_pos
  rcases chain.bounds (List.mem_map_of_mem member) with
    ⟨startLe, nonempty, endLe⟩
  rcases groupLoop_mem positive placed.kc0_pos member with
    ⟨⟨-, last⟩, start, stop⟩
  have aligned : blocks.kFactor ∣ piece.kStart ∧
      (blocks.kFactor ∣ piece.kStart + piece.kg0 ∨
        piece.kStart + piece.kg0 = k) := by
    rw [stop, start]
    rcases whole with single | divides
    · have first : piece.group = 0 := by
        rw [Nat.div_eq_of_lt (by omega)] at last
        exact Nat.le_zero.mp last
      rw [first, Nat.zero_mul, max_eq_right (Nat.zero_le _),
        min_eq_right (by omega)]
      exact ⟨kFactor_dvd_pc placed, tile_row_end placed⟩
    · have multiple (count : Nat) : blocks.kFactor ∣ count * groupSize :=
        divides.mul_left count
      refine ⟨?_, ?_⟩
      · rcases max_choice (piece.group * groupSize) tile.pc with
          own | block
        · rw [own]
          exact multiple _
        · rw [block]
          exact kFactor_dvd_pc placed
      · rcases min_choice ((piece.group + 1) * groupSize)
            (tile.pc + tile.kc0) with own | block
        · rw [own]
          exact Or.inl (multiple _)
        · rw [block]
          exact tile_row_end placed
  refine ⟨startLe, nonempty, endLe, aligned.1, ?_⟩
  exact aligned.2.imp_left (Nat.dvd_add_right aligned.1).mp

/-- The padded rows of a cut stay inside the tile. -/
theorem RowCut.padded_le (legal : blocks.Legal)
    (placed : tile.Placed legal n k)
    (cut : RowCut blocks.kFactor k tile piece) :
    piece.kStart - tile.pc + roundUp piece.kg0 blocks.kFactor ≤
      roundUp tile.kc0 blocks.kFactor := by
  have kPos := legal.kFactor_pos
  have startLe := cut.start_le
  have endLe := cut.end_le
  rw [← roundUp_add_of_dvd kPos
    (Nat.dvd_sub cut.start_dvd (kFactor_dvd_pc placed))]
  exact roundUp_le_of_dvd kPos (dvd_roundUp _ _)
    (le_trans (by omega) (le_roundUp kPos tile.kc0))

/-- The region of a part, inside the slot of its chunk. -/
theorem region_groupTile_iff (legal : blocks.Legal)
    (visited : chunk ∈ panelChunks tile.nc0 blocks.NR blocks.minNR
      (roundUp tile.kc0 blocks.kFactor)) (slot : Nat) :
    Region blocks (groupTile tile chunk piece) slot ↔
      tile.off + chunk.offset +
          (piece.kStart - tile.pc) * chunk.slot ≤ slot ∧
        slot < tile.off + chunk.offset +
          (piece.kStart - tile.pc + roundUp piece.kg0 blocks.kFactor) *
            chunk.slot := by
  have width := roundUp_cols legal.widths
    (panelChunks_widths legal.widths visited)
    (panelChunks_isChunk legal.widths visited).nonempty
  rw [Region, dlpReorderPanelElems,
    dlpReorderRoundUp_eq legal.widths.minNR_pos,
    dlpReorderRoundUp_eq legal.kFactor_pos]
  change _ ∧ slot < _ + (piece.kStart - tile.pc) * chunk.slot +
    roundUp chunk.cols blocks.minNR * roundUp piece.kg0 blocks.kFactor ↔ _
  rw [width, Nat.add_mul, Nat.mul_comm chunk.slot, Nat.add_assoc _ _ (_ * _)]
  rfl

/-- The slot of a chunk, as a part of the tile's region. -/
theorem chunk_slot_end (legal : blocks.Legal)
    (visited : chunk ∈ panelChunks tile.nc0 blocks.NR blocks.minNR
      (roundUp tile.kc0 blocks.kFactor)) :
    chunk.offset + roundUp tile.kc0 blocks.kFactor * chunk.slot =
        (chunk.colStart + chunk.slot) * roundUp tile.kc0 blocks.kFactor ∧
      chunk.colStart + chunk.slot ≤ roundUp tile.nc0 blocks.minNR := by
  have isChunk := panelChunks_isChunk legal.widths visited
  refine ⟨?_, ?_⟩
  · rw [isChunk.offset]
    ring
  · have chain := paddedChunks_chain legal.widths tile.nc0
      (roundUp tile.kc0 blocks.kFactor)
    exact (chain.bounds (List.mem_map_of_mem visited)).2.2

/-- The region of a part lies in the region of its tile. -/
theorem region_of_groupTile (placed : tile.Placed legal n k)
    (visited : chunk ∈ panelChunks tile.nc0 blocks.NR blocks.minNR
      (roundUp tile.kc0 blocks.kFactor))
    (cut : RowCut blocks.kFactor k tile piece) {slot : Nat}
    (inside : Region blocks (groupTile tile chunk piece) slot) :
    Region blocks tile slot := by
  rcases (region_groupTile_iff legal visited slot).mp inside with
    ⟨lower, upper⟩
  rcases chunk_slot_end legal visited with ⟨slotEnd, fits⟩
  have rows := Nat.mul_le_mul_right chunk.slot
    (cut.padded_le legal placed)
  have columns := Nat.mul_le_mul_right
    (roundUp tile.kc0 blocks.kFactor) fits
  rw [Region, dlpReorderPanelElems,
    dlpReorderRoundUp_eq legal.widths.minNR_pos,
    dlpReorderRoundUp_eq legal.kFactor_pos]
  omega

/-- An element whose slot lies in a chunk's slot is in the chunk. -/
theorem column_of_chunk_slot (placed : tile.Placed legal n k)
    (visited : chunk ∈ panelChunks tile.nc0 blocks.NR blocks.minNR
      (roundUp tile.kc0 blocks.kFactor)) {kr col : Nat}
    (row : kr < tile.kc0) (column : col < tile.nc0)
    (lower : tile.off + chunk.offset ≤
      slotOf legal n k (tile.pc + kr) (tile.jc + col))
    (upper : slotOf legal n k (tile.pc + kr) (tile.jc + col) <
      tile.off + chunk.offset +
        roundUp tile.kc0 blocks.kFactor * chunk.slot) :
    chunk.colStart ≤ col ∧ col < chunk.colStart + chunk.cols := by
  have kPos := legal.kFactor_pos
  have inRows := row.trans_le (le_roundUp kPos tile.kc0)
  rcases panelChunks_covers legal.widths
      (roundUp tile.kc0 blocks.kFactor) column with
    ⟨own, ownVisited, ownLower, ownUpper⟩
  have ownChunk := panelChunks_isChunk legal.widths ownVisited
  rcases Nat.exists_eq_add_of_le ownLower with ⟨i, rfl⟩
  have inOwn : i < own.cols := Nat.lt_of_add_lt_add_left ownUpper
  have ownSlot : own.cols ≤ own.slot := by
    rw [← roundUp_cols legal.widths
      (panelChunks_widths legal.widths ownVisited) ownChunk.nonempty]
    exact le_roundUp legal.widths.minNR_pos own.cols
  have position : tile.off + own.offset +
        dlpReorderElemOffset kr i own.slot blocks.kFactor =
      slotOf legal n k (tile.pc + kr) (tile.jc + (own.colStart + i)) := by
    rw [← Nat.add_assoc tile.jc]
    apply chunk_eq_slotOf placed _ row inOwn
    rw [dlpReorderRoundUp_eq kPos]
    exact ownVisited
  have small := elemOffset_lt kPos (dvd_roundUp tile.kc0 blocks.kFactor)
    inRows (inOwn.trans_le ownSlot)
  rw [← position] at lower upper
  have same : own = chunk := by
    apply panelChunks_unique_offset legal.widths
      (Nat.zero_lt_of_lt inRows) ownVisited visited
      (show own.offset ≤ own.offset +
          dlpReorderElemOffset kr i own.slot blocks.kFactor ∧ _ from
        ⟨Nat.le_add_right _ _, Nat.add_lt_add_left small _⟩)
    rw [Nat.mul_comm chunk.slot]
    omega
  rw [← same]
  exact ⟨ownLower, ownUpper⟩

/-- The elements of a part lie where packing the whole tile stores them. -/
theorem groupTile_slot_eq (placed : tile.Placed legal n k)
    (visited : chunk ∈ panelChunks tile.nc0 blocks.NR blocks.minNR
      (roundUp tile.kc0 blocks.kFactor))
    (cut : RowCut blocks.kFactor k tile piece) {kr i : Nat}
    (row : kr < piece.kg0) (inside : i < chunk.cols) :
    tile.off + chunk.offset + (piece.kStart - tile.pc) * chunk.slot +
        dlpReorderElemOffset kr i chunk.slot blocks.kFactor =
      slotOf legal n k (piece.kStart + kr)
        (tile.jc + chunk.colStart + i) := by
  have startLe := cut.start_le
  have endLe := cut.end_le
  have inTile : piece.kStart - tile.pc + kr < tile.kc0 := by omega
  have whole := chunk_eq_slotOf placed
    ((dlpReorderRoundUp_eq legal.kFactor_pos tile.kc0).symm ▸ visited)
    inTile inside
  rw [elemOffset_add_of_dvd legal.kFactor_pos
      (Nat.dvd_sub cut.start_dvd (kFactor_dvd_pc placed)),
    ← Nat.add_assoc tile.pc, Nat.add_sub_of_le startLe] at whole
  rw [← whole, Nat.add_assoc _ (_ * _)]

/-- Only elements of a part have their slots in its region. -/
theorem groupTile_window (placed : tile.Placed legal n k)
    (visited : chunk ∈ panelChunks tile.nc0 blocks.NR blocks.minNR
      (roundUp tile.kc0 blocks.kFactor))
    (cut : RowCut blocks.kFactor k tile piece) {p j : Nat} (row : p < k)
    (column : j < n)
    (inside : Region blocks (groupTile tile chunk piece)
      (slotOf legal n k p j)) :
    InWindow (groupTile tile chunk piece) p j := by
  have kPos := legal.kFactor_pos
  have startLe := cut.start_le
  have relative := Nat.dvd_sub cut.start_dvd (kFactor_dvd_pc placed)
  have padded := Nat.mul_le_mul_right chunk.slot
    (cut.padded_le legal placed)
  have inTile := window_of_region placed row column
    (region_of_groupTile placed visited cut inside)
  rcases (region_groupTile_iff legal visited _).mp inside with
    ⟨lower, upper⟩
  rcases Nat.exists_eq_add_of_le inTile.1.1 with ⟨kr, rfl⟩
  rcases Nat.exists_eq_add_of_le inTile.2.1 with ⟨col, rfl⟩
  have inRows : kr < tile.kc0 := Nat.lt_of_add_lt_add_left inTile.1.2
  have inColumns := column_of_chunk_slot placed visited inRows
    (Nat.lt_of_add_lt_add_left inTile.2.2) (by omega) (by omega)
  rcases Nat.exists_eq_add_of_le inColumns.1 with ⟨i, rfl⟩
  have live : i < chunk.cols := Nat.lt_of_add_lt_add_left inColumns.2
  have inSlot : i < chunk.slot := by
    rw [← roundUp_cols legal.widths
      (panelChunks_widths legal.widths visited) (Nat.zero_lt_of_lt live)]
    exact live.trans_le (le_roundUp legal.widths.minNR_pos chunk.cols)
  have position := chunk_eq_slotOf placed
    ((dlpReorderRoundUp_eq kPos tile.kc0).symm ▸ visited) inRows live
  rw [Nat.add_assoc tile.jc] at position
  rw [← position, Nat.add_le_add_iff_left,
    le_elemOffset_iff kPos relative inSlot] at lower
  rw [← position, Nat.add_lt_add_iff_left, ← not_le,
    le_elemOffset_iff kPos (Nat.dvd_add relative (dvd_roundUp _ _)) inSlot,
    not_le] at upper
  have stop : tile.pc + kr < piece.kStart + piece.kg0 := by
    rcases cut.ends with divides | last
    · rw [roundUp_of_dvd kPos divides] at upper
      omega
    · exact row.trans_eq last.symm
  refine ⟨⟨?_, stop⟩, ?_, ?_⟩
  · change piece.kStart ≤ tile.pc + kr
    omega
  · change tile.jc + chunk.colStart ≤ tile.jc + (chunk.colStart + i)
    omega
  · change tile.jc + (chunk.colStart + i) <
      tile.jc + chunk.colStart + chunk.cols
    omega

/-- A part of a placed tile is stored. -/
theorem stored_groupTile (placed : tile.Placed legal n k)
    (visited : chunk ∈ panelChunks tile.nc0 blocks.NR blocks.minNR
      (roundUp tile.kc0 blocks.kFactor))
    (cut : RowCut blocks.kFactor k tile piece) :
    Stored legal n k (groupTile tile chunk piece) where
  row_end_le := cut.end_le.trans (stored_of_placed placed).row_end_le
  column_end_le := by
    have inside := (panelChunks_isChunk legal.widths visited).inside
    have columns := placed.column_end_le
    change tile.jc + chunk.colStart + chunk.cols ≤ n
    omega
  slot_eq := by
    intro kr col row column
    have alone := chunk_alone legal.widths
      (panelChunks_widths legal.widths visited) column
    change tile.off + chunk.offset +
        (piece.kStart - tile.pc) * chunk.slot +
          (chunkStart chunk.cols blocks.NR blocks.minNR col *
              roundUp piece.kg0 blocks.kFactor +
            dlpReorderElemOffset kr
              (col - chunkStart chunk.cols blocks.NR blocks.minNR col)
              (chunkSlot chunk.cols blocks.NR blocks.minNR col)
              blocks.kFactor) = _
    rw [alone.1, alone.2, Nat.zero_mul, Nat.zero_add, Nat.sub_zero]
    exact groupTile_slot_eq placed visited cut row column
  window := fun _ _ row column inside =>
    groupTile_window placed visited cut row column inside

/-- Every element of a tile lies in the window of a part. -/
theorem exists_groupTile_window (placed : tile.Placed legal n k)
    (positive : 0 < groupSize) {p j : Nat} (window : InWindow tile p j) :
    ∃ chunk, chunk ∈ panelChunks tile.nc0 blocks.NR blocks.minNR
        (roundUp tile.kc0 blocks.kFactor) ∧
      ∃ piece, piece ∈ groupLoop groupSize tile.pc tile.kc0 ∧
        InWindow (groupTile tile chunk piece) p j := by
  rcases Nat.exists_eq_add_of_le window.2.1 with ⟨col, rfl⟩
  rcases panelChunks_covers legal.widths (roundUp tile.kc0 blocks.kFactor)
      (Nat.lt_of_add_lt_add_left window.2.2) with
    ⟨chunk, visited, lower, upper⟩
  have chain : Chain tile.pc _ (tile.pc + tile.kc0) :=
    groupLoop_chain positive placed.kc0_pos
  rcases chain.exists_has window.1.1 window.1.2 with
    ⟨_, inLoop, has⟩
  rcases List.mem_map.mp inLoop with ⟨piece, member, rfl⟩
  refine ⟨chunk, visited, piece, member, has, ?_⟩
  change tile.jc + chunk.colStart ≤ tile.jc + col ∧
    tile.jc + col < tile.jc + chunk.colStart + chunk.cols
  omega

/-- The padded rows of the groups follow each other over the padded rows of
the tile. -/
theorem paddedGroups_chain (placed : tile.Placed legal n k)
    (positive : 0 < groupSize)
    (whole : k ≤ groupSize ∨ blocks.kFactor ∣ groupSize) :
    Chain tile.pc
      ((groupLoop groupSize tile.pc tile.kc0).map fun piece =>
        ⟨piece.kStart, roundUp piece.kg0 blocks.kFactor⟩)
      (tile.pc + roundUp tile.kc0 blocks.kFactor) := by
  have aligned := kFactor_dvd_pc placed
  have chain : Chain tile.pc _ (tile.pc + tile.kc0) :=
    groupLoop_chain positive placed.kc0_pos
  have padded := chain.roundUp legal.kFactor_pos
    (by
      intro rows member
      rcases List.mem_map.mp member with ⟨piece, inLoop, rfl⟩
      exact (rowCut_of_mem placed positive whole inLoop).start_dvd)
    aligned
  rw [roundUp_add_of_dvd legal.kFactor_pos aligned, List.map_map] at padded
  exact padded

/-- Every slot of a tile's region is filled by a part. -/
theorem exists_groupTile_region (placed : tile.Placed legal n k)
    (positive : 0 < groupSize)
    (whole : k ≤ groupSize ∨ blocks.kFactor ∣ groupSize) {slot : Nat}
    (inside : Region blocks tile slot) :
    ∃ chunk, chunk ∈ panelChunks tile.nc0 blocks.NR blocks.minNR
        (roundUp tile.kc0 blocks.kFactor) ∧
      ∃ piece, piece ∈ groupLoop groupSize tile.pc tile.kc0 ∧
        Region blocks (groupTile tile chunk piece) slot := by
  have heightPos : 0 < roundUp tile.kc0 blocks.kFactor :=
    roundUp_pos legal.kFactor_pos placed.kc0_pos
  rw [Region, dlpReorderPanelElems,
    dlpReorderRoundUp_eq legal.widths.minNR_pos,
    dlpReorderRoundUp_eq legal.kFactor_pos] at inside
  rcases Nat.exists_eq_add_of_le inside.1 with ⟨offset, rfl⟩
  have below := Nat.lt_of_add_lt_add_left inside.2
  rcases (paddedChunks_chain legal.widths tile.nc0
      (roundUp tile.kc0 blocks.kFactor)).exists_has (Nat.zero_le _)
      ((Nat.div_lt_iff_lt_mul heightPos).mpr below) with
    ⟨_, inChunks, hasColumn⟩
  rcases List.mem_map.mp inChunks with ⟨chunk, visited, rfl⟩
  have isChunk := panelChunks_isChunk legal.widths visited
  have first : chunk.offset ≤ offset := by
    rw [isChunk.offset]
    exact (Nat.le_div_iff_mul_le heightPos).mp hasColumn.1
  have last : offset < (chunk.colStart + chunk.slot) *
      roundUp tile.kc0 blocks.kFactor :=
    (Nat.div_lt_iff_lt_mul heightPos).mp hasColumn.2
  rw [← (chunk_slot_end legal visited).1] at last
  rcases Nat.exists_eq_add_of_le first with ⟨rest, rfl⟩
  have inSlot := Nat.lt_of_add_lt_add_left last
  have slotPos : 0 < chunk.slot := Nat.pos_of_mul_pos_left
    (Nat.zero_lt_of_lt inSlot)
  have row : rest / chunk.slot < roundUp tile.kc0 blocks.kFactor :=
    (Nat.div_lt_iff_lt_mul slotPos).mpr inSlot
  rcases (paddedGroups_chain placed positive whole).exists_has
      (Nat.le_add_right tile.pc _) (Nat.add_lt_add_left row _) with
    ⟨_, inGroups, hasRow⟩
  rcases List.mem_map.mp inGroups with ⟨piece, inLoop, rfl⟩
  have cut := rowCut_of_mem placed positive whole inLoop
  have startLe := cut.start_le
  have lower : piece.kStart ≤ tile.pc + rest / chunk.slot := hasRow.1
  have upper : tile.pc + rest / chunk.slot <
    piece.kStart + roundUp piece.kg0 blocks.kFactor := hasRow.2
  have stored : (piece.kStart - tile.pc) * chunk.slot ≤ rest :=
    (Nat.le_div_iff_mul_le slotPos).mp (by omega)
  have ends : rest < (piece.kStart - tile.pc +
      roundUp piece.kg0 blocks.kFactor) * chunk.slot :=
    (Nat.div_lt_iff_lt_mul slotPos).mp (by omega)
  refine ⟨chunk, visited, piece, inLoop, ?_⟩
  rw [region_groupTile_iff legal visited]
  omega

/-! ## Strips -/

theorem stripTiles_placed (placed : tile.Placed legal n k) {strip : Tile}
    (member : strip ∈ stripTiles blocks tile) : strip.Placed legal n k := by
  rcases List.mem_map.mp member with ⟨piece, inLoop, rfl⟩
  rcases pcLoop_mem (dvd_zero blocks.NR) inLoop with
    ⟨aligned, inside, width⟩
  rw [width]
  exact placed.strip aligned inside

/-- The strips of a tile follow each other over its columns. -/
theorem stripTiles_chain (legal : blocks.Legal) (tile : Tile) :
    Chain tile.jc
      ((stripTiles blocks tile).map fun strip => ⟨strip.jc, strip.nc0⟩)
      (tile.jc + tile.nc0) := by
  have columns := (pcLoop_chain legal.widths.NR_pos tile.nc0
    (Nat.le_add_left tile.nc0 0) (Nat.zero_le _)).shift tile.jc
  rw [Nat.add_zero] at columns
  rw [stripTiles, List.map_map]
  convert columns using 1
  apply List.map_congr_left
  intro piece _
  exact congrArg (Piece.mk (tile.jc + piece.start))
    (Nat.add_sub_cancel_left piece.start piece.width)

/-- Every slot of a tile's region lies in the region of a strip. -/
theorem exists_strip_region (placed : tile.Placed legal n k) {slot : Nat}
    (inside : Region blocks tile slot) :
    ∃ strip, strip ∈ stripTiles blocks tile ∧ Region blocks strip slot := by
  have heightPos : 0 < roundUp tile.kc0 blocks.kFactor :=
    roundUp_pos legal.kFactor_pos placed.kc0_pos
  have columns := (pcLoop_chain legal.widths.NR_pos tile.nc0
    (Nat.le_add_left tile.nc0 0) (Nat.zero_le tile.nc0)).roundUp
    legal.widths.minNR_pos
    (fun piece member => legal.widths.divides.trans
      (pcLoop_mem (dvd_zero blocks.NR) member).1)
    (dvd_zero blocks.minNR)
  rw [Region, dlpReorderPanelElems,
    dlpReorderRoundUp_eq legal.widths.minNR_pos,
    dlpReorderRoundUp_eq legal.kFactor_pos] at inside
  rcases Nat.exists_eq_add_of_le inside.1 with ⟨offset, rfl⟩
  rcases columns.exists_has (Nat.zero_le _)
      ((Nat.div_lt_iff_lt_mul heightPos).mpr
        (Nat.lt_of_add_lt_add_left inside.2)) with
    ⟨_, inColumns, hasColumn⟩
  rcases List.mem_map.mp inColumns with ⟨piece, inLoop, rfl⟩
  have first := (Nat.le_div_iff_mul_le heightPos).mp hasColumn.1
  have last := (Nat.div_lt_iff_lt_mul heightPos).mp hasColumn.2
  dsimp only at first last
  refine ⟨_, List.mem_map_of_mem inLoop, ?_⟩
  rw [Region, dlpReorderPanelElems,
    dlpReorderRoundUp_eq legal.widths.minNR_pos,
    dlpReorderRoundUp_eq legal.kFactor_pos]
  change tile.off + piece.start * dlpReorderRoundUp tile.kc0 blocks.kFactor ≤
      tile.off + offset ∧ tile.off + offset <
    tile.off + piece.start * dlpReorderRoundUp tile.kc0 blocks.kFactor +
      roundUp (piece.start + piece.width - piece.start) blocks.minNR *
        roundUp tile.kc0 blocks.kFactor
  rw [dlpReorderRoundUp_eq legal.kFactor_pos, Nat.add_sub_cancel_left]
  rw [Nat.add_mul] at last
  omega

/-- Placed tiles start at whole groups of interleaved rows. -/
theorem kFactor_dvd_off (placed : tile.Placed legal n k) :
    blocks.kFactor ∣ tile.off := by
  rw [placed.off_eq]
  refine Nat.dvd_add (Nat.dvd_add ?_ ?_) ?_
  · exact (dvd_roundUp k blocks.kFactor).mul_left _
  · exact (kFactor_dvd_pc placed).mul_left _
  · exact (kFactor_dvd_height legal placed.row_dvd).mul_left _

end Parts

end AoclDlp.Layout.GroupTiles
