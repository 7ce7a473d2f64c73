import AoclDlp.Foundations.Span
import Mathlib.Tactic.Linarith

/-!
# Chunks of a reordered panel

A packed `KC` by `NC` panel is cut along its columns into full micro panels of
`NR` columns, one fringe whose width is the largest multiple of `min_NR` that
still fits, and one tail narrower than `min_NR` in a slot of `min_NR`.  Inside
a chunk the elements are stored `k` major with `k_factor` rows interleaved per
column.

This module embeds `dlp_gemm_reorder_layout.h` and describes the chunk walk by
the chunk of a column, a function of the column alone.
-/

namespace AoclDlp.Layout.Chunk

open AoclDlp.Foundations.Rounding
open AoclDlp.Foundations.Span

/-- `dlp_reorder_round_up`. -/
def dlpReorderRoundUp (value unit : Nat) : Nat :=
  if unit = 0 then 0 else (value + unit - 1) / unit * unit

/-- `dlp_reorder_elem_offset`. -/
def dlpReorderElemOffset (kr i slot kFactor : Nat) : Nat :=
  kr / kFactor * (kFactor * slot) + i * kFactor + kr % kFactor

/-- `dlp_reorder_panel_elems`. -/
def dlpReorderPanelElems (nc0 kc0 minNR kFactor : Nat) : Nat :=
  dlpReorderRoundUp nc0 minNR * dlpReorderRoundUp kc0 kFactor

/-- `dlp_reorder_chunk_t`. -/
structure DlpReorderChunk where
  colStart : Nat
  cols : Nat
  slot : Nat
  offset : Nat
  deriving DecidableEq, Repr

/-- `dlp_reorder_chunk_first`. -/
def dlpReorderChunkFirst : DlpReorderChunk :=
  ⟨0, 0, 0, 0⟩

/--
`dlp_reorder_chunk_next`: the advanced chunk, or nothing when the source
returns `FALSE`.
-/
def dlpReorderChunkNext
    (chunk : DlpReorderChunk) (nc0 NR minNR kc0Padded : Nat) :
    Option DlpReorderChunk :=
  let nextCol := chunk.colStart + chunk.cols
  let offset := chunk.offset + chunk.slot * kc0Padded
  if nc0 ≤ nextCol then none
  else if NR = 0 ∨ minNR = 0 then none
  else
    let remaining := nc0 - nextCol
    if NR ≤ remaining then some ⟨nextCol, NR, NR, offset⟩
    else
      let whole := remaining / minNR * minNR
      if 0 < whole then some ⟨nextCol, whole, whole, offset⟩
      else some ⟨nextCol, remaining, minNR, offset⟩

/-- The chunks visited by `while (dlp_reorder_chunk_next(...))`. -/
def chunkLoop (nc0 NR minNR kc0Padded : Nat) :
    Nat → DlpReorderChunk → List DlpReorderChunk
  | 0, _ => []
  | fuel + 1, chunk =>
      match dlpReorderChunkNext chunk nc0 NR minNR kc0Padded with
      | none => []
      | some next => next :: chunkLoop nc0 NR minNR kc0Padded fuel next

/-- All chunks of an `nc0` wide panel; every chunk has a column. -/
def panelChunks (nc0 NR minNR kc0Padded : Nat) : List DlpReorderChunk :=
  chunkLoop nc0 NR minNR kc0Padded nc0 dlpReorderChunkFirst

/-- `dlp_reorder_ref_blocks_legal`. -/
def dlpReorderRefBlocksLegal (NR minNR KC kFactor : Nat) : Bool :=
  0 < NR && 0 < KC && 0 < minNR && 0 < kFactor && NR % minNR == 0 &&
    KC % kFactor == 0

/-! ## The chunk of a column -/

/-- First column of the chunk that holds column `col`. -/
def chunkStart (n NR minNR col : Nat) : Nat :=
  if col < blockStart n NR then blockStart col NR
  else if col < blockStart n minNR then blockStart n NR
  else blockStart n minNR

/-- Slot width of the chunk that holds column `col`. -/
def chunkSlot (n NR minNR col : Nat) : Nat :=
  if col < blockStart n NR then NR
  else if col < blockStart n minNR then
    blockStart n minNR - blockStart n NR
  else minNR

/-- Widths that the chunk rule accepts. -/
structure Widths (NR minNR : Nat) : Prop where
  NR_pos : 0 < NR
  minNR_pos : 0 < minNR
  divides : minNR ∣ NR

theorem dlpReorderRoundUp_eq {unit : Nat} (positive : 0 < unit)
    (value : Nat) : dlpReorderRoundUp value unit = roundUp value unit := by
  simp [dlpReorderRoundUp, roundUp, positive.ne']

theorem chunk_full {n NR minNR col : Nat} (full : col < blockStart n NR) :
    chunkStart n NR minNR col = blockStart col NR ∧
      chunkSlot n NR minNR col = NR := by
  simp [chunkStart, chunkSlot, full]

theorem chunk_fringe {n NR minNR col : Nat} (past : blockStart n NR ≤ col)
    (fringe : col < blockStart n minNR) :
    chunkStart n NR minNR col = blockStart n NR ∧
      chunkSlot n NR minNR col = blockStart n minNR - blockStart n NR := by
  simp [chunkStart, chunkSlot, Nat.not_lt.mpr past, fringe]

theorem chunk_tail {n NR minNR col : Nat} (past : blockStart n NR ≤ col)
    (tail : blockStart n minNR ≤ col) :
    chunkStart n NR minNR col = blockStart n minNR ∧
      chunkSlot n NR minNR col = minNR := by
  simp [chunkStart, chunkSlot, Nat.not_lt.mpr past, Nat.not_lt.mpr tail]

/-- The three kinds of chunk. -/
theorem chunk_kinds (n NR minNR col : Nat) :
    col < blockStart n NR ∨
      (blockStart n NR ≤ col ∧ col < blockStart n minNR) ∨
      (blockStart n NR ≤ col ∧ blockStart n minNR ≤ col) := by
  omega

namespace Widths

variable {NR minNR : Nat}

theorem minNR_le (widths : Widths NR minNR) : minNR ≤ NR :=
  Nat.le_of_dvd widths.NR_pos widths.divides

theorem full_le_tail (widths : Widths NR minNR) (n : Nat) :
    blockStart n NR ≤ blockStart n minNR := by
  have aligned : minNR ∣ blockStart n NR :=
    widths.divides.trans (dvd_blockStart n NR)
  by_contra below
  have crossed := add_le_of_dvd_lt (dvd_blockStart n minNR) aligned
    (Nat.lt_of_not_le below)
  have inside := blockStart_le n NR
  have close := lt_blockStart_add widths.minNR_pos n
  omega

/-- A full micro panel ends before the fringe starts. -/
theorem full_end_le {n col : Nat} (full : col < blockStart n NR) :
    blockStart col NR + NR ≤ blockStart n NR :=
  add_le_of_dvd_lt (dvd_blockStart col NR) (dvd_blockStart n NR)
    ((blockStart_le col NR).trans_lt full)

theorem chunkStart_le (NR minNR n col : Nat) :
    chunkStart n NR minNR col ≤ col := by
  rcases chunk_kinds n NR minNR col with full | fringe | tail
  · rw [(chunk_full full).1]
    exact blockStart_le col NR
  · rw [(chunk_fringe fringe.1 fringe.2).1]
    exact fringe.1
  · rw [(chunk_tail tail.1 tail.2).1]
    exact tail.2

theorem lt_chunkEnd (widths : Widths NR minNR) {n col : Nat}
    (below : col < n) :
    col < chunkStart n NR minNR col + chunkSlot n NR minNR col := by
  rcases chunk_kinds n NR minNR col with full | fringe | tail
  · rw [(chunk_full full).1, (chunk_full full).2]
    exact lt_blockStart_add widths.NR_pos col
  · rw [(chunk_fringe fringe.1 fringe.2).1,
      (chunk_fringe fringe.1 fringe.2).2]
    omega
  · rw [(chunk_tail tail.1 tail.2).1, (chunk_tail tail.1 tail.2).2]
    exact below.trans (lt_blockStart_add widths.minNR_pos n)

theorem chunkEnd_le_roundUp (widths : Widths NR minNR) {n col : Nat}
    (below : col < n) :
    chunkStart n NR minNR col + chunkSlot n NR minNR col ≤
      roundUp n minNR := by
  have covers := le_roundUp widths.minNR_pos n
  have tailLe := blockStart_le n minNR
  have fullLe := widths.full_le_tail n
  rcases chunk_kinds n NR minNR col with full | fringe | tail
  · rw [(chunk_full full).1, (chunk_full full).2]
    have fits := full_end_le full
    omega
  · rw [(chunk_fringe fringe.1 fringe.2).1,
      (chunk_fringe fringe.1 fringe.2).2]
    omega
  · rw [(chunk_tail tail.1 tail.2).1, (chunk_tail tail.1 tail.2).2]
    apply add_le_of_dvd_lt (dvd_blockStart n minNR) (dvd_roundUp n minNR)
    omega

/-- The chunk of a column is the chunk of every padded column of its slot. -/
theorem chunk_of_inside (widths : Widths NR minNR) {n col padded : Nat}
    (lower : chunkStart n NR minNR col ≤ padded)
    (upper : padded <
      chunkStart n NR minNR col + chunkSlot n NR minNR col) :
    chunkStart n NR minNR padded = chunkStart n NR minNR col ∧
      chunkSlot n NR minNR padded = chunkSlot n NR minNR col := by
  have fullLe := widths.full_le_tail n
  rcases chunk_kinds n NR minNR col with full | fringe | tail
  · rw [(chunk_full full).1] at lower upper ⊢
    rw [(chunk_full full).2] at upper ⊢
    have fits := full_end_le full
    have inside : padded < blockStart n NR := upper.trans_le fits
    rw [(chunk_full inside).1, (chunk_full inside).2,
      blockStart_eq (dvd_blockStart col NR) lower upper]
    exact ⟨rfl, rfl⟩
  · rw [(chunk_fringe fringe.1 fringe.2).1] at lower upper ⊢
    rw [(chunk_fringe fringe.1 fringe.2).2] at upper ⊢
    exact chunk_fringe lower (by omega)
  · rw [(chunk_tail tail.1 tail.2).1] at lower upper ⊢
    rw [(chunk_tail tail.1 tail.2).2]
    exact chunk_tail (fullLe.trans lower) lower

/-- A chunk does not start before an aligned column that precedes it. -/
theorem le_chunkStart_of_dvd (widths : Widths NR minNR) {n col bound : Nat}
    (aligned : NR ∣ bound) (before : bound ≤ col) (within : bound ≤ n) :
    bound ≤ chunkStart n NR minNR col := by
  have least {index unit : Nat} (positive : 0 < unit)
      (divides : unit ∣ bound) (below : bound ≤ index) :
      bound ≤ blockStart index unit := by
    by_contra past
    have crossed := add_le_of_dvd_lt (dvd_blockStart index unit) divides
      (Nat.lt_of_not_le past)
    have close := lt_blockStart_add positive index
    omega
  rcases chunk_kinds n NR minNR col with full | fringe | tail
  · rw [(chunk_full full).1]
    exact least widths.NR_pos aligned before
  · rw [(chunk_fringe fringe.1 fringe.2).1]
    exact least widths.NR_pos aligned within
  · rw [(chunk_tail tail.1 tail.2).1]
    exact least widths.minNR_pos (widths.divides.trans aligned) within

/-- A micro panel starts its own chunk. -/
theorem chunkStart_of_dvd (widths : Widths NR minNR) {n col : Nat}
    (aligned : NR ∣ col) (within : col ≤ n) :
    chunkStart n NR minNR col = col :=
  le_antisymm (chunkStart_le NR minNR n col)
    (widths.le_chunkStart_of_dvd aligned le_rfl within)

/-- A chunk does not cross an aligned column after it. -/
theorem chunkEnd_le_of_dvd (widths : Widths NR minNR) {n col bound : Nat}
    (aligned : NR ∣ bound) (after : col < bound) (below : col < n) :
    chunkStart n NR minNR col + chunkSlot n NR minNR col ≤ bound := by
  by_cases full : col < blockStart n NR
  · rw [(chunk_full full).1, (chunk_full full).2]
    exact add_le_of_dvd_lt (dvd_blockStart col NR) aligned
      ((blockStart_le col NR).trans_lt after)
  · have past : blockStart n NR < bound := by omega
    have beyond := add_le_of_dvd_lt (dvd_blockStart n NR) aligned past
    have close := lt_blockStart_add widths.NR_pos n
    have padded : roundUp n minNR ≤ bound :=
      roundUp_le_of_dvd widths.minNR_pos (widths.divides.trans aligned)
        (by omega)
    exact (widths.chunkEnd_le_roundUp below).trans padded

/-- Chunks of an aligned piece are chunks of the whole extent. -/
theorem chunk_shift (widths : Widths NR minNR) {n start width col : Nat}
    (aligned : NR ∣ start) (inside : col < width)
    (ends : start + width = n ∨ (NR ∣ width ∧ start + width ≤ n)) :
    chunkStart n NR minNR (start + col) =
        start + chunkStart width NR minNR col ∧
      chunkSlot n NR minNR (start + col) =
        chunkSlot width NR minNR col := by
  have minAligned : minNR ∣ start := widths.divides.trans aligned
  rcases ends with last | ⟨divides, fits⟩
  · subst last
    have fullStart := blockStart_add_of_dvd widths.NR_pos aligned width
    have tailStart :=
      blockStart_add_of_dvd widths.minNR_pos minAligned width
    have colStart := blockStart_add_of_dvd widths.NR_pos aligned col
    unfold chunkStart chunkSlot
    rw [fullStart, tailStart, colStart]
    simp only [Nat.add_lt_add_iff_left, Nat.add_sub_add_left]
    refine ⟨?_, trivial⟩
    split_ifs <;> rfl
  · have pieceFull : blockStart width NR = width :=
      blockStart_eq divides le_rfl (Nat.lt_add_of_pos_right widths.NR_pos)
    have colFull : col < blockStart width NR :=
      inside.trans_eq pieceFull.symm
    have wholeFull : start + width ≤ blockStart n NR := by
      by_contra before
      have crossed := add_le_of_dvd_lt (dvd_blockStart n NR)
        (Nat.dvd_add aligned divides) (Nat.lt_of_not_le before)
      have close := lt_blockStart_add widths.NR_pos n
      omega
    have wholeCol : start + col < blockStart n NR :=
      (Nat.add_lt_add_left inside start).trans_le wholeFull
    rw [(chunk_full wholeCol).1, (chunk_full wholeCol).2,
      (chunk_full colFull).1, (chunk_full colFull).2]
    exact ⟨blockStart_add_of_dvd widths.NR_pos aligned col, rfl⟩

end Widths

/-! ## The chunk walk visits the chunk of every column -/

/-- A chunk of the walk agrees with the chunk of each of its columns. -/
structure IsChunk (nc0 NR minNR kc0Padded : Nat)
    (chunk : DlpReorderChunk) : Prop where
  offset : chunk.offset = chunk.colStart * kc0Padded
  nonempty : 0 < chunk.cols
  inside : chunk.colStart + chunk.cols ≤ nc0
  column : ∀ i, i < chunk.cols →
    chunkStart nc0 NR minNR (chunk.colStart + i) = chunk.colStart ∧
      chunkSlot nc0 NR minNR (chunk.colStart + i) = chunk.slot

/-- The columns of a chunk fit its slot. -/
theorem IsChunk.cols_le {nc0 NR minNR kc0Padded : Nat}
    {chunk : DlpReorderChunk} (widths : Widths NR minNR)
    (isChunk : IsChunk nc0 NR minNR kc0Padded chunk) :
    chunk.cols ≤ chunk.slot := by
  have nonempty := isChunk.nonempty
  have inside := isChunk.inside
  have last := isChunk.column (chunk.cols - 1) (by omega)
  have stop := @Widths.lt_chunkEnd NR minNR widths nc0
    (chunk.colStart + (chunk.cols - 1)) (by omega)
  rw [last.1, last.2] at stop
  omega

/-- The slot of a chunk ends within the padded columns. -/
theorem IsChunk.slot_end_le {nc0 NR minNR kc0Padded : Nat}
    {chunk : DlpReorderChunk} (widths : Widths NR minNR)
    (isChunk : IsChunk nc0 NR minNR kc0Padded chunk) :
    chunk.colStart + chunk.slot ≤ roundUp nc0 minNR := by
  have nonempty := isChunk.nonempty
  have inside := isChunk.inside
  have first := isChunk.column 0 nonempty
  have padded := @Widths.chunkEnd_le_roundUp NR minNR widths nc0
    (chunk.colStart + 0) (by omega)
  rw [first.1, first.2] at padded
  exact padded

/-- The walk stands at a chunk boundary of the panel. -/
def Ready (nc0 NR minNR kc0Padded : Nat) (chunk : DlpReorderChunk) : Prop :=
  chunk.colStart + chunk.cols < nc0 →
    chunk.offset + chunk.slot * kc0Padded =
        (chunk.colStart + chunk.cols) * kc0Padded ∧
      (NR ∣ chunk.colStart + chunk.cols ∨
        chunk.colStart + chunk.cols = blockStart nc0 minNR)

/-- What one successful `dlp_reorder_chunk_next` does. -/
structure Advances (nc0 NR minNR kc0Padded : Nat)
    (chunk next : DlpReorderChunk) : Prop where
  start : next.colStart = chunk.colStart + chunk.cols
  isChunk : IsChunk nc0 NR minNR kc0Padded next
  ready : Ready nc0 NR minNR kc0Padded next

section Walk

variable {nc0 NR minNR kc0Padded : Nat} {chunk : DlpReorderChunk}

/-- A full micro panel at an aligned column. -/
theorem advances_full {col : Nat} (aligned : NR ∣ col) (positive : 0 < NR)
    (fits : col + NR ≤ nc0) (start : chunk.colStart + chunk.cols = col)
    (offset : chunk.offset + chunk.slot * kc0Padded = col * kc0Padded) :
    Advances nc0 NR minNR kc0Padded chunk
      ⟨col, NR, NR, chunk.offset + chunk.slot * kc0Padded⟩ := by
  have whole : col + NR ≤ blockStart nc0 NR := by
    by_contra before
    have crossed := add_le_of_dvd_lt (dvd_blockStart nc0 NR)
      (Nat.dvd_add aligned dvd_rfl) (Nat.lt_of_not_le before)
    have close := lt_blockStart_add positive nc0
    omega
  refine ⟨start.symm, ⟨offset, positive, fits, ?_⟩, ?_⟩
  · intro i bounded
    have full : col + i < blockStart nc0 NR :=
      (Nat.add_lt_add_left bounded col).trans_le whole
    have same : blockStart (col + i) NR = col :=
      blockStart_eq aligned (Nat.le_add_right col i)
        (Nat.add_lt_add_left bounded col)
    rw [(chunk_full full).1, (chunk_full full).2, same]
    exact ⟨rfl, rfl⟩
  · intro _
    refine ⟨?_, Or.inl (Nat.dvd_add aligned dvd_rfl)⟩
    simp only [offset]
    ring

/-- The fringe after the last full micro panel. -/
theorem advances_fringe {col : Nat} (full : blockStart nc0 NR = col)
    (fringe : col < blockStart nc0 minNR)
    (start : chunk.colStart + chunk.cols = col)
    (offset : chunk.offset + chunk.slot * kc0Padded = col * kc0Padded) :
    Advances nc0 NR minNR kc0Padded chunk
      ⟨col, blockStart nc0 minNR - col, blockStart nc0 minNR - col,
        chunk.offset + chunk.slot * kc0Padded⟩ := by
  have tailLe := blockStart_le nc0 minNR
  have joined : col + (blockStart nc0 minNR - col) =
      blockStart nc0 minNR := Nat.add_sub_of_le fringe.le
  refine ⟨start.symm, ⟨offset, Nat.sub_pos_of_lt fringe, ?_, ?_⟩, ?_⟩
  · exact joined.trans_le tailLe
  · intro i bounded
    change i < blockStart nc0 minNR - col at bounded
    have inFringe := chunk_fringe
      (show blockStart nc0 NR ≤ col + i by omega)
      (show col + i < blockStart nc0 minNR by omega)
    rw [inFringe.1, inFringe.2, full]
    exact ⟨rfl, rfl⟩
  · intro _
    refine ⟨?_, Or.inr joined⟩
    simp only [offset]
    ring

/-- The tail, which ends the panel. -/
theorem advances_tail {col : Nat} (full : blockStart nc0 NR ≤ col)
    (tail : blockStart nc0 minNR = col) (below : col < nc0)
    (start : chunk.colStart + chunk.cols = col)
    (offset : chunk.offset + chunk.slot * kc0Padded = col * kc0Padded) :
    Advances nc0 NR minNR kc0Padded chunk
      ⟨col, nc0 - col, minNR, chunk.offset + chunk.slot * kc0Padded⟩ := by
  have joined : col + (nc0 - col) = nc0 := Nat.add_sub_of_le below.le
  refine ⟨start.symm, ⟨offset, Nat.sub_pos_of_lt below, joined.le, ?_⟩, ?_⟩
  · intro i _
    have inTail := chunk_tail
      (show blockStart nc0 NR ≤ col + i by omega)
      (show blockStart nc0 minNR ≤ col + i by omega)
    rw [inTail.1, inTail.2]
    exact ⟨tail, rfl⟩
  · intro unfinished
    change col + (nc0 - col) < nc0 at unfinished
    omega

theorem dlpReorderChunkNext_of_done
    (done : nc0 ≤ chunk.colStart + chunk.cols) :
    dlpReorderChunkNext chunk nc0 NR minNR kc0Padded = none := by
  simp [dlpReorderChunkNext, done]

/-- `dlp_reorder_chunk_next` moves from chunk boundary to chunk boundary. -/
theorem dlpReorderChunkNext_advances (widths : Widths NR minNR)
    (ready : Ready nc0 NR minNR kc0Padded chunk)
    (unfinished : chunk.colStart + chunk.cols < nc0) :
    ∃ next, dlpReorderChunkNext chunk nc0 NR minNR kc0Padded = some next ∧
      Advances nc0 NR minNR kc0Padded chunk next := by
  rcases ready unfinished with ⟨offset, boundary⟩
  have fullLe := widths.full_le_tail nc0
  have minLe := widths.minNR_le
  have closeFull := lt_blockStart_add widths.NR_pos nc0
  have closeTail := lt_blockStart_add widths.minNR_pos nc0
  unfold dlpReorderChunkNext
  dsimp only
  rw [if_neg (Nat.not_le.mpr unfinished),
    if_neg (by simp [widths.NR_pos.ne', widths.minNR_pos.ne'])]
  generalize position : chunk.colStart + chunk.cols = col at *
  by_cases fits : NR ≤ nc0 - col
  · rw [if_pos fits]
    rcases boundary with aligned | atTail
    · exact ⟨_, rfl, advances_full aligned widths.NR_pos (by omega)
        position offset⟩
    · omega
  · rw [if_neg fits]
    have full : blockStart nc0 NR ≤ col := by
      rcases boundary with aligned | atTail
      · rw [blockStart_eq aligned unfinished.le (by omega)]
      · exact fullLe.trans_eq atTail.symm
    have minAligned : minNR ∣ col := by
      rcases boundary with aligned | atTail
      · exact widths.divides.trans aligned
      · rw [atTail]
        exact dvd_blockStart nc0 minNR
    have whole : (nc0 - col) / minNR * minNR =
        blockStart nc0 minNR - col := by
      have shifted := blockStart_add_of_dvd widths.minNR_pos minAligned
        (nc0 - col)
      rw [Nat.add_sub_of_le unfinished.le] at shifted
      rw [shifted, Nat.add_sub_cancel_left]
      rfl
    rw [whole]
    by_cases fringe : 0 < blockStart nc0 minNR - col
    · rw [if_pos fringe]
      have exactFull : blockStart nc0 NR = col := by
        rcases boundary with aligned | atTail
        · exact blockStart_eq aligned unfinished.le (by omega)
        · omega
      exact ⟨_, rfl, advances_fringe exactFull (by omega) position offset⟩
    · rw [if_neg fringe]
      have atTail : blockStart nc0 minNR = col := by
        apply blockStart_eq minAligned unfinished.le
        omega
      exact ⟨_, rfl, advances_tail full atTail unfinished position offset⟩

theorem chunkLoop_isChunk (widths : Widths NR minNR) (fuel : Nat)
    (ready : Ready nc0 NR minNR kc0Padded chunk) {visited : DlpReorderChunk}
    (member : visited ∈ chunkLoop nc0 NR minNR kc0Padded fuel chunk) :
    IsChunk nc0 NR minNR kc0Padded visited := by
  induction fuel generalizing chunk with
  | zero => cases member
  | succ fuel ih =>
      unfold chunkLoop at member
      by_cases unfinished : chunk.colStart + chunk.cols < nc0
      · rcases dlpReorderChunkNext_advances widths ready unfinished with
          ⟨next, result, advances⟩
        rw [result] at member
        rcases List.mem_cons.mp member with rfl | later
        · exact advances.isChunk
        · exact ih advances.ready later
      · rw [dlpReorderChunkNext_of_done (Nat.le_of_not_lt unfinished)]
          at member
        cases member

/-- Columns of the chunk that starts before `remaining` columns. -/
def chunkCols (NR minNR remaining : Nat) : Nat :=
  if NR ≤ remaining then NR
  else if 0 < remaining / minNR * minNR then remaining / minNR * minNR
  else remaining

theorem dlpReorderChunkNext_cols {next : DlpReorderChunk}
    (result : dlpReorderChunkNext chunk nc0 NR minNR kc0Padded =
      some next) :
    next.cols = chunkCols NR minNR (nc0 - next.colStart) := by
  unfold dlpReorderChunkNext at result
  unfold chunkCols
  dsimp only at result
  split_ifs at result <;> cases result
  · rw [if_pos ‹_›]
  · rw [if_neg ‹_›, if_pos ‹_›]
  · rw [if_neg ‹_›, if_neg ‹_›]

theorem exists_next_of_mem {fuel : Nat} {visited : DlpReorderChunk}
    (member : visited ∈ chunkLoop nc0 NR minNR kc0Padded fuel chunk) :
    ∃ before,
      dlpReorderChunkNext before nc0 NR minNR kc0Padded = some visited := by
  induction fuel generalizing chunk with
  | zero => cases member
  | succ fuel ih =>
      unfold chunkLoop at member
      cases result : dlpReorderChunkNext chunk nc0 NR minNR kc0Padded with
      | none =>
          rw [result] at member
          cases member
      | some next =>
          rw [result] at member
          rcases List.mem_cons.mp member with rfl | later
          · exact ⟨chunk, result⟩
          · exact ih later

theorem chunkLoop_cols {fuel : Nat} {visited : DlpReorderChunk}
    (member : visited ∈ chunkLoop nc0 NR minNR kc0Padded fuel chunk) :
    visited.cols = chunkCols NR minNR (nc0 - visited.colStart) := by
  rcases exists_next_of_mem member with ⟨before, result⟩
  exact dlpReorderChunkNext_cols result

/-- The widths of a full chunk, of a fringe and of a tail. -/
def ChunkWidths (NR minNR : Nat) (chunk : DlpReorderChunk) : Prop :=
  (chunk.cols = NR ∧ chunk.slot = NR) ∨
    (chunk.cols = chunk.slot ∧ minNR ∣ chunk.cols ∧ chunk.cols < NR) ∨
    (chunk.cols < minNR ∧ chunk.slot = minNR)

theorem panelChunks_widths (widths : Widths NR minNR)
    (member : chunk ∈ panelChunks nc0 NR minNR kc0Padded) :
    ChunkWidths NR minNR chunk := by
  rcases exists_next_of_mem member with ⟨before, result⟩
  unfold dlpReorderChunkNext at result
  dsimp only at result
  split_ifs at result with _ _ full fringe <;> cases result
  · exact Or.inl ⟨rfl, rfl⟩
  · refine Or.inr (Or.inl ⟨rfl, Nat.dvd_mul_left _ _, ?_⟩)
    exact (blockStart_le _ _).trans_lt (Nat.lt_of_not_le full)
  · refine Or.inr (Or.inr ⟨?_, rfl⟩)
    have close := lt_blockStart_add widths.minNR_pos
      (nc0 - (before.colStart + before.cols))
    unfold blockStart at close
    dsimp only
    omega

/-- A chunk on its own is a panel of one chunk. -/
theorem chunk_alone (widths : Widths NR minNR)
    (sized : ChunkWidths NR minNR chunk) {i : Nat}
    (inside : i < chunk.cols) :
    chunkStart chunk.cols NR minNR i = 0 ∧
      chunkSlot chunk.cols NR minNR i = chunk.slot := by
  have minLe := widths.minNR_le
  have zero {value unit : Nat} (small : value < unit) :
      blockStart value unit = 0 :=
    blockStart_eq (dvd_zero unit) (Nat.zero_le value) (by omega)
  have self {value unit : Nat} (positive : 0 < unit) (divides : unit ∣ value) :
      blockStart value unit = value :=
    blockStart_eq divides le_rfl (Nat.lt_add_of_pos_right positive)
  rcases sized with ⟨cols, slot⟩ | ⟨same, divides, narrow⟩ | ⟨short, slot⟩
  · have full : i < blockStart chunk.cols NR := by
      rw [self widths.NR_pos (cols ▸ dvd_rfl)]
      exact inside
    rw [(chunk_full full).1, (chunk_full full).2, slot]
    exact ⟨zero (cols ▸ inside), rfl⟩
  · have fringe := chunk_fringe
      (show blockStart chunk.cols NR ≤ i by rw [zero narrow]; exact i.zero_le)
      (show i < blockStart chunk.cols minNR by
        rw [self widths.minNR_pos divides]
        exact inside)
    rw [fringe.1, fringe.2, zero narrow, self widths.minNR_pos divides]
    exact ⟨rfl, same⟩
  · have tail := chunk_tail
      (show blockStart chunk.cols NR ≤ i by
        rw [zero (short.trans_le minLe)]
        exact i.zero_le)
      (show blockStart chunk.cols minNR ≤ i by
        rw [zero short]
        exact i.zero_le)
    rw [tail.1, tail.2, zero short, slot]
    exact ⟨rfl, rfl⟩

/-- The slot of a chunk is its padded width. -/
theorem roundUp_cols (widths : Widths NR minNR)
    (sized : ChunkWidths NR minNR chunk) (nonempty : 0 < chunk.cols) :
    roundUp chunk.cols minNR = chunk.slot := by
  have minPos := widths.minNR_pos
  rcases sized with ⟨cols, slot⟩ | ⟨same, divides, -⟩ | ⟨short, slot⟩
  · rw [cols, slot, roundUp_of_dvd minPos widths.divides]
  · rw [roundUp_of_dvd minPos divides, same]
  · rw [slot]
    apply le_antisymm
    · exact roundUp_le_of_dvd minPos dvd_rfl short.le
    · exact Nat.le_of_dvd (roundUp_pos minPos nonempty)
        (dvd_roundUp chunk.cols minNR)

/-- The column piece of a chunk. -/
def DlpReorderChunk.piece (chunk : DlpReorderChunk) : Piece :=
  ⟨chunk.colStart, chunk.cols⟩

theorem chunkLoop_chain (widths : Widths NR minNR) (fuel : Nat)
    (ready : Ready nc0 NR minNR kc0Padded chunk)
    (enough : nc0 ≤ chunk.colStart + chunk.cols + fuel)
    (bounded : chunk.colStart + chunk.cols ≤ nc0) :
    Chain (chunk.colStart + chunk.cols)
      ((chunkLoop nc0 NR minNR kc0Padded fuel chunk).map
        DlpReorderChunk.piece) nc0 := by
  induction fuel generalizing chunk with
  | zero =>
      rw [le_antisymm bounded enough]
      exact .nil nc0
  | succ fuel ih =>
      unfold chunkLoop
      by_cases unfinished : chunk.colStart + chunk.cols < nc0
      · rcases dlpReorderChunkNext_advances widths ready unfinished with
          ⟨next, result, advances⟩
        have nonempty := advances.isChunk.nonempty
        have start := advances.start
        rw [result, ← start]
        exact .cons nonempty
          (ih advances.ready (by omega) advances.isChunk.inside)
      · have done := Nat.le_of_not_lt unfinished
        rw [dlpReorderChunkNext_of_done done, le_antisymm bounded done]
        exact .nil nc0

theorem ready_first (nc0 NR minNR kc0Padded : Nat) :
    Ready nc0 NR minNR kc0Padded dlpReorderChunkFirst := by
  intro _
  simp [dlpReorderChunkFirst]

/-- Every chunk of a panel is the chunk of each of its columns. -/
theorem panelChunks_isChunk (widths : Widths NR minNR)
    (member : chunk ∈ panelChunks nc0 NR minNR kc0Padded) :
    IsChunk nc0 NR minNR kc0Padded chunk :=
  chunkLoop_isChunk widths nc0 (ready_first nc0 NR minNR kc0Padded) member

/-- The chunks of a panel are consecutive and cover its columns. -/
theorem panelChunks_chain (widths : Widths NR minNR)
    (nc0 kc0Padded : Nat) :
    Chain 0
      ((panelChunks nc0 NR minNR kc0Padded).map DlpReorderChunk.piece)
      nc0 :=
  chunkLoop_chain widths nc0 (ready_first nc0 NR minNR kc0Padded)
    (Nat.le_add_left nc0 _) (Nat.zero_le nc0)

/-- Every column of a panel is visited. -/
theorem panelChunks_covers (widths : Widths NR minNR) (kc0Padded : Nat)
    {col : Nat} (below : col < nc0) :
    ∃ visited, visited ∈ panelChunks nc0 NR minNR kc0Padded ∧
      visited.colStart ≤ col ∧ col < visited.colStart + visited.cols := by
  rcases (panelChunks_chain widths nc0 kc0Padded).exists_has
      (Nat.zero_le col) below with ⟨_, member, has⟩
  rcases List.mem_map.mp member with ⟨visited, inPanel, rfl⟩
  exact ⟨visited, inPanel, has⟩

/-- Chunks start at whole slots. -/
theorem minNR_dvd_colStart (widths : Widths NR minNR)
    (member : chunk ∈ panelChunks nc0 NR minNR kc0Padded) :
    minNR ∣ chunk.colStart := by
  have isChunk := panelChunks_isChunk widths member
  rw [← (isChunk.column 0 isChunk.nonempty).1]
  rcases chunk_kinds nc0 NR minNR (chunk.colStart + 0) with
    full | fringe | tail
  · rw [(chunk_full full).1]
    exact widths.divides.trans (dvd_blockStart _ NR)
  · rw [(chunk_fringe fringe.1 fringe.2).1]
    exact widths.divides.trans (dvd_blockStart _ NR)
  · rw [(chunk_tail tail.1 tail.2).1]
    exact dvd_blockStart _ minNR

/-- The slots of the chunks follow each other over the padded columns. -/
theorem paddedChunks_chain (widths : Widths NR minNR)
    (nc0 kc0Padded : Nat) :
    Chain 0
      ((panelChunks nc0 NR minNR kc0Padded).map fun chunk =>
        ⟨chunk.colStart, chunk.slot⟩)
      (roundUp nc0 minNR) := by
  have padded := (panelChunks_chain widths nc0 kc0Padded).roundUp
    widths.minNR_pos
    (by
      intro piece member
      rcases List.mem_map.mp member with ⟨chunk, visited, rfl⟩
      exact minNR_dvd_colStart widths visited)
    (dvd_zero minNR)
  rw [List.map_map] at padded
  convert padded using 1
  apply List.map_congr_left
  intro chunk visited
  exact congrArg (Piece.mk chunk.colStart)
    (roundUp_cols widths (panelChunks_widths widths visited)
      (panelChunks_isChunk widths visited).nonempty).symm

/-- A padded column lies in the slot of one chunk only. -/
theorem panelChunks_unique (widths : Widths NR minNR)
    {left right : DlpReorderChunk}
    (leftMember : left ∈ panelChunks nc0 NR minNR kc0Padded)
    (rightMember : right ∈ panelChunks nc0 NR minNR kc0Padded)
    {padded : Nat}
    (inLeft : left.colStart ≤ padded ∧ padded < left.colStart + left.slot)
    (inRight : right.colStart ≤ padded ∧
      padded < right.colStart + right.slot) :
    left = right := by
  have leftChunk := panelChunks_isChunk widths leftMember
  have rightChunk := panelChunks_isChunk widths rightMember
  have slots := (paddedChunks_chain widths nc0 kc0Padded).unique
    (List.mem_map_of_mem leftMember) (List.mem_map_of_mem rightMember)
    inLeft inRight
  rcases Piece.mk.inj slots with ⟨start, slot⟩
  have pieces := (panelChunks_chain widths nc0 kc0Padded).unique
    (List.mem_map_of_mem leftMember) (List.mem_map_of_mem rightMember)
    (show left.piece.Has left.colStart from
      ⟨le_rfl, Nat.lt_add_of_pos_right leftChunk.nonempty⟩)
    (show right.piece.Has left.colStart from
      ⟨start.ge, start ▸ Nat.lt_add_of_pos_right rightChunk.nonempty⟩)
  have cols := (Piece.mk.inj pieces).2
  have offset : left.offset = right.offset := by
    rw [leftChunk.offset, rightChunk.offset, start]
  cases left
  cases right
  simp only at start slot cols offset
  rw [start, slot, cols, offset]

/-- An offset into a panel lies in the area of one chunk only. -/
theorem panelChunks_unique_offset (widths : Widths NR minNR)
    (positive : 0 < kc0Padded) {left right : DlpReorderChunk}
    (leftMember : left ∈ panelChunks nc0 NR minNR kc0Padded)
    (rightMember : right ∈ panelChunks nc0 NR minNR kc0Padded)
    {offset : Nat}
    (inLeft : left.offset ≤ offset ∧
      offset < left.offset + left.slot * kc0Padded)
    (inRight : right.offset ≤ offset ∧
      offset < right.offset + right.slot * kc0Padded) :
    left = right := by
  have column {chunk : DlpReorderChunk}
      (member : chunk ∈ panelChunks nc0 NR minNR kc0Padded)
      (inside : chunk.offset ≤ offset ∧
        offset < chunk.offset + chunk.slot * kc0Padded) :
      chunk.colStart ≤ offset / kc0Padded ∧
        offset / kc0Padded < chunk.colStart + chunk.slot := by
    rw [(panelChunks_isChunk widths member).offset, ← Nat.add_mul] at inside
    exact ⟨(Nat.le_div_iff_mul_le positive).mpr inside.1,
      (Nat.div_lt_iff_lt_mul positive).mpr inside.2⟩
  exact panelChunks_unique widths leftMember rightMember
    (column leftMember inLeft) (column rightMember inRight)

end Walk

/-! ## Element offsets inside a chunk -/

section Element

variable {kFactor slot : Nat}

theorem elemOffset_low_lt (kr : Nat) {i : Nat} (positive : 0 < kFactor)
    (inside : i < slot) : i * kFactor + kr % kFactor < kFactor * slot := by
  have small := Nat.mod_lt kr positive
  calc
    i * kFactor + kr % kFactor < i * kFactor + kFactor :=
      Nat.add_lt_add_left small _
    _ = kFactor * (i + 1) := by ring
    _ ≤ kFactor * slot := Nat.mul_le_mul_left kFactor inside

/-- Elements of a chunk stay inside its slot. -/
theorem elemOffset_lt {kr i height : Nat} (positive : 0 < kFactor)
    (divides : kFactor ∣ height) (row : kr < height) (inside : i < slot) :
    dlpReorderElemOffset kr i slot kFactor < slot * height := by
  rcases divides with ⟨groups, rfl⟩
  have group : kr / kFactor < groups := Nat.div_lt_of_lt_mul row
  have low := elemOffset_low_lt kr positive inside
  calc
    dlpReorderElemOffset kr i slot kFactor =
        kr / kFactor * (kFactor * slot) +
          (i * kFactor + kr % kFactor) := by
      rw [dlpReorderElemOffset, Nat.add_assoc]
    _ < kr / kFactor * (kFactor * slot) + kFactor * slot :=
      Nat.add_lt_add_left low _
    _ = (kr / kFactor + 1) * (kFactor * slot) := by ring
    _ ≤ groups * (kFactor * slot) := Nat.mul_le_mul_right _ group
    _ = slot * (kFactor * groups) := by ring

/-- Rows of a whole group of interleaved rows are stored together. -/
theorem elemOffset_add_of_dvd {base kr i : Nat} (positive : 0 < kFactor)
    (divides : kFactor ∣ base) :
    dlpReorderElemOffset (base + kr) i slot kFactor =
      base * slot + dlpReorderElemOffset kr i slot kFactor := by
  rcases divides with ⟨count, rfl⟩
  unfold dlpReorderElemOffset
  rw [Nat.mul_add_div positive, Nat.mul_add_mod_self_left]
  ring

/-- The row groups of a chunk follow each other. -/
theorem le_elemOffset_iff {base kr i : Nat} (positive : 0 < kFactor)
    (divides : kFactor ∣ base) (inside : i < slot) :
    base * slot ≤ dlpReorderElemOffset kr i slot kFactor ↔ base ≤ kr := by
  constructor
  · intro stored
    by_contra before
    have bound := elemOffset_lt positive divides (Nat.lt_of_not_le before)
      inside
    rw [Nat.mul_comm] at bound
    exact absurd bound (Nat.not_lt.mpr stored)
  · intro after
    rcases Nat.exists_eq_add_of_le after with ⟨rest, rfl⟩
    rw [elemOffset_add_of_dvd positive divides]
    exact Nat.le_add_right _ _

/-- The interleave is injective. -/
theorem elemOffset_injective {kr i kr2 i2 : Nat} (positive : 0 < kFactor)
    (inside : i < slot) (inside2 : i2 < slot)
    (equal : dlpReorderElemOffset kr i slot kFactor =
      dlpReorderElemOffset kr2 i2 slot kFactor) :
    kr = kr2 ∧ i = i2 := by
  have low := elemOffset_low_lt kr positive inside
  have low2 := elemOffset_low_lt kr2 positive inside2
  unfold dlpReorderElemOffset at equal
  rw [Nat.add_assoc, Nat.add_assoc] at equal
  have area : 0 < kFactor * slot := Nat.zero_lt_of_lt low
  have quotient (count rest : Nat) (small : rest < kFactor * slot) :
      (count * (kFactor * slot) + rest) / (kFactor * slot) = count := by
    rw [Nat.add_comm, Nat.add_mul_div_right _ _ area,
      Nat.div_eq_of_lt small, Nat.zero_add]
  have group : kr / kFactor = kr2 / kFactor := by
    rw [← quotient (kr / kFactor) _ low, equal, quotient _ _ low2]
  rw [group] at equal
  have rest := Nat.add_left_cancel equal
  have remainder : kr % kFactor = kr2 % kFactor := by
    have modulo := congrArg (· % kFactor) rest
    simpa [Nat.mul_add_mod_self_right] using modulo
  rw [remainder] at rest
  have column : i = i2 :=
    Nat.eq_of_mul_eq_mul_right positive (Nat.add_right_cancel rest)
  refine ⟨?_, column⟩
  rw [← Nat.div_add_mod kr kFactor, group, remainder,
    Nat.div_add_mod kr2 kFactor]

end Element

end AoclDlp.Layout.Chunk
