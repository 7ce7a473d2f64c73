import AoclDlp.Config.BlockSize
import AoclDlp.Foundations.Accumulation
import AoclDlp.Layout.ReorderRef
import AoclDlp.Threading.WorkPartition
import Mathlib.Algebra.BigOperators.Ring.List
import Mathlib.Data.BitVec

/-!
# The s8s8s32 driver on a reordered matrix

`dlp_reorderb_s8s8s32o32` packs an int8 matrix and accumulates, behind the
image, the column sums that compensate the unsigned dot product.  The GEMM
driver later walks its own split of the columns and hands the micro-kernel
addresses into that buffer.  Nothing in the buffer records how it was split,
so every address of the GEMM has to be the one the reorder used.

The pack kernel follows the chunk rule of the reference layout and adds
`128 * sum` over the rows of the panel to the column sum of every live column.
-/

namespace AoclDlp.Layout.S8s8s32

open AoclDlp.Config.BlockSize
open AoclDlp.Foundations.Accumulation
open AoclDlp.Foundations.Memory
open AoclDlp.Foundations.Rounding
open AoclDlp.Foundations.Span
open AoclDlp.Layout.Chunk
open AoclDlp.Layout.Panel
open AoclDlp.Layout.ReorderRef
open AoclDlp.Layout.TeamTiles
open AoclDlp.Threading.TaskRange
open AoclDlp.Threading.WorkPartition

/-! ## The reorder -/

/-- `dlp_make_multiple_of_n`. -/
def dlpMakeMultipleOfN (k n : Nat) : Nat :=
  if n = 0 then 0 else (k + n - 1) / n * n

/-- `dlp_get_packb_s8s8s32o32_min_NR`. -/
def dlpGetPackbS8s8s32o32MinNR : Nat := 16

/-- The blocking that the s8 reorder walks. -/
def s8Blocks (blksz : DlpGemmBlockSize) : Blocks where
  NR := blksz.NR
  minNR := dlpGetPackbS8s8s32o32MinNR
  NC := blksz.NC
  KC := blksz.KC
  kFactor := 4

/-- A strided int8 matrix. -/
def s8Shape (n k rsB csB : Nat) : MatrixShape :=
  ⟨n, k, rsB, csB, 1⟩

/--
The reorder buffer: the bytes of the image, and the int32 words behind it by
the byte address of the word.
-/
structure ReorderBuffer where
  image : Bytes
  words : Nat → BitVec 32

/-- Byte address of the first column sum. -/
def packBColumnSum (n k : Nat) : Nat :=
  dlpMakeMultipleOfN n 16 * dlpMakeMultipleOfN k 4

/-- The cast of a stored int8 to int32. -/
def widen (byte : UInt8) : BitVec 32 :=
  byte.toBitVec.signExtend 32

/-- What one pack kernel call adds to the column sums from `colSum` on. -/
def columnSumWrites (blksz : DlpGemmBlockSize)
    (packSrc nc0 kc0 rsB csB colSum : Nat) (unpacked : Bytes) :
    List (Nat × BitVec 32) :=
  (panelChunks nc0 blksz.NR dlpGetPackbS8s8s32o32MinNR
      (dlpMakeMultipleOfN kc0 4)).flatMap fun chunk =>
    (List.range chunk.cols).map fun i =>
      (colSum + 4 * (chunk.colStart + i),
        128 * ((List.range kc0).map fun kr =>
          widen (unpacked
            (packSrc + (kr * rsB + (chunk.colStart + i) * csB)))).sum)

/-- The loop body of `dlp_reorderb_s8s8s32o32` at one tile. -/
def packTileS8 (blksz : DlpGemmBlockSize) (n k rsB csB : Nat)
    (unpacked : Bytes) (tile : Tile) (buffer : ReorderBuffer) :
    ReorderBuffer where
  image :=
    packTile (s8Blocks blksz) (s8Shape n k rsB csB) unpacked tile
      buffer.image
  words :=
    addAll
      (columnSumWrites blksz (rsB * tile.pc + tile.jc * csB) tile.nc0
        tile.kc0 rsB csB (packBColumnSum n k + 4 * tile.jc) unpacked)
      buffer.words

/-- The team that the reorder opens. -/
def reorderThreads (numThreads : Int) : Nat :=
  if 0 < numThreads then numThreads.toNat else 1

/-- The zeroing loop over the padded column sums. -/
def clearColumnSums (n k : Nat) (words : Nat → BitVec 32) :
    Nat → BitVec 32 :=
  (List.range (dlpMakeMultipleOfN n 16)).foldl
    (fun current idx =>
      Function.update current (packBColumnSum n k + 4 * idx) 0) words

/-- `dlp_reorderb_s8s8s32o32` under a schedule of its team. -/
def dlpReorderbS8s8s32o32 {blksz : DlpGemmBlockSize}
    {n k rsB csB : Nat} {numThreads : Int}
    (schedule : Schedule (s8Blocks blksz) (s8Shape n k rsB csB)
      (reorderThreads numThreads))
    (unpacked : Bytes) (buffer : ReorderBuffer) : ReorderBuffer :=
  schedule.order.foldl
    (fun current tile => packTileS8 blksz n k rsB csB unpacked tile current)
    { buffer with words := clearColumnSums n k buffer.words }

/-! ## The GEMM driver -/

/-- One micro-kernel call; addresses are byte offsets into the buffer. -/
structure KernelCall where
  jc : Nat
  jr : Nat
  nr0 : Nat
  pc : Nat
  kc0 : Nat
  ic : Nat
  mc0 : Nat
  bAddress : Nat
  bColSumVec : Nat
  bSumOffset : Nat
  deriving DecidableEq, Repr

/-- The `jr` loop, which advances `b_sum_offset` with `jr`. -/
def jrLoop (NR : Nat) (step : JcStep) (row ic : Piece)
    (bUse bColSumVec : Nat) : Nat → Nat → Nat → List KernelCall
  | 0, _, _ => []
  | fuel + 1, jr, bSumOffset =>
      if jr < step.nc0 then
        { jc := step.jc
          jr := jr
          nr0 := min (step.nc0 - jr) NR
          pc := row.start
          kc0 := row.width
          ic := ic.start
          mc0 := ic.width
          bAddress := bUse + jr * dlpMakeMultipleOfN row.width 4
          bColSumVec := bColSumVec
          bSumOffset := bSumOffset } ::
          jrLoop NR step row ic bUse bColSumVec fuel (jr + NR)
            (bSumOffset + NR)
      else []

/--
The micro-kernel calls of one thread in the `REORDERED` branch of
`dlp_gemm_rowvar_s8s8s32o32`.  The row-block loop steps like the `pc` loop.
-/
def dlpGemmRowvarS8s8s32o32 (blksz : DlpGemmBlockSize) (m n k : Nat)
    (thread : DlpGemmThrinfo) : List KernelCall :=
  let kUpdated := dlpMakeMultipleOfN k 4
  let nUpdated := dlpMakeMultipleOfN n 16
  let jcRange := gemmJcRange thread n blksz.NR
  let icRange := gemmIcRange thread m blksz.MR
  (jcLoop n blksz.NC dlpGetPackbS8s8s32o32MinNR jcRange.2 jcRange.2
      jcRange.1).flatMap fun step =>
    (pcLoop k blksz.KC k 0).flatMap fun row =>
      let kc0Updated := dlpMakeMultipleOfN row.width 4
      let bUse := step.jcCurLoop * kUpdated + step.nSubUpdated * row.start +
        step.jcCurLoopRem * kc0Updated
      let bColSumVec := kUpdated * nUpdated + 4 * step.jc
      (pcLoop icRange.2 blksz.MC icRange.2 icRange.1).flatMap fun ic =>
        jrLoop blksz.NR step row ic bUse bColSumVec step.nc0 0 0

/-! ## Column sums -/

/-- The blockings of the s8 drivers. -/
structure S8Legal (blksz : DlpGemmBlockSize) : Prop where
  NR_pos : 0 < blksz.NR
  NR_dvd : 16 ∣ blksz.NR
  NC_pos : 0 < blksz.NC
  NC_dvd : blksz.NR ∣ blksz.NC
  KC_pos : 0 < blksz.KC
  KC_dvd : 4 ∣ blksz.KC

theorem S8Legal.blocks {blksz : DlpGemmBlockSize} (legal : S8Legal blksz) :
    (s8Blocks blksz).Legal where
  widths := ⟨legal.NR_pos, Nat.succ_pos 15, legal.NR_dvd⟩
  KC_pos := legal.KC_pos
  kFactor_pos := Nat.succ_pos 3
  kFactor_dvd := legal.KC_dvd
  NC_pos := legal.NC_pos
  NR_dvd := legal.NC_dvd

theorem reorderThreads_pos (numThreads : Int) :
    0 < reorderThreads numThreads := by
  unfold reorderThreads
  split <;> omega

section ColumnSums

variable {blksz : DlpGemmBlockSize} {n k rsB csB : Nat}

/-- The widened element `(p, j)` of the matrix. -/
def element (unpacked : Bytes) (rsB csB p j : Nat) : BitVec 32 :=
  widen (unpacked (p * rsB + j * csB))

/-- What one pack kernel call adds to a word, column by column. -/
theorem columnSumWrites_added (legal : S8Legal blksz) (unpacked : Bytes)
    (packSrc nc0 kc0 colSum address : Nat) :
    addedAt (columnSumWrites blksz packSrc nc0 kc0 rsB csB colSum unpacked)
        address =
      ((List.range nc0).map fun col =>
        if address = colSum + 4 * col then
          128 * ((List.range kc0).map fun kr =>
            widen (unpacked (packSrc + (kr * rsB + col * csB)))).sum
        else 0).sum := by
  have chunks := sum_chain
    (panelChunks_chain legal.blocks.widths nc0 (dlpMakeMultipleOfN kc0 4))
    fun col =>
      if address = colSum + 4 * col then
        128 * ((List.range kc0).map fun kr =>
          widen (unpacked (packSrc + (kr * rsB + col * csB)))).sum
      else 0
  rw [List.map_map] at chunks
  unfold columnSumWrites addedAt
  rw [sum_map_flatMap]
  simp only [List.map_map, Function.comp_def]
  refine chunks.trans ?_
  rw [Nat.sub_zero, ← List.range_eq_range']

/-- The column sums that one tile's pack kernel adds. -/
def tileWrites (blksz : DlpGemmBlockSize) (n k rsB csB : Nat)
    (unpacked : Bytes) (tile : Tile) : List (Nat × BitVec 32) :=
  columnSumWrites blksz (rsB * tile.pc + tile.jc * csB) tile.nc0 tile.kc0
    rsB csB (packBColumnSum n k + 4 * tile.jc) unpacked

/-- The source position of an element of a tile. -/
theorem packSrc_eq (tile : Tile) (kr col : Nat) :
    rsB * tile.pc + tile.jc * csB + (kr * rsB + col * csB) =
      (tile.pc + kr) * rsB + (tile.jc + col) * csB := by
  ring

theorem tileWrites_added (legal : S8Legal blksz) (unpacked : Bytes)
    (tile : Tile) (j : Nat) :
    addedAt (tileWrites blksz n k rsB csB unpacked tile)
        (packBColumnSum n k + 4 * j) =
      if tile.jc ≤ j ∧ j < tile.jc + tile.nc0 then
        128 * ((List.range tile.kc0).map fun kr =>
          element unpacked rsB csB (tile.pc + kr) j).sum
      else 0 := by
  have same (col : Nat) : packBColumnSum n k + 4 * j =
      packBColumnSum n k + 4 * tile.jc + 4 * col ↔ j = tile.jc + col := by
    omega
  rw [tileWrites, columnSumWrites_added legal]
  simp only [same, packSrc_eq]
  rw [sum_range_indicator tile.jc tile.nc0 j]
  by_cases inside : tile.jc ≤ j ∧ j < tile.jc + tile.nc0
  · rw [if_pos inside, if_pos inside, Nat.add_sub_of_le inside.1]
    rfl
  · rw [if_neg inside, if_neg inside]

/-- Packing a list of tiles packs their images and adds their sums. -/
theorem foldl_packTileS8 (unpacked : Bytes) (tiles : List Tile)
    (buffer : ReorderBuffer) :
    tiles.foldl
        (fun current tile => packTileS8 blksz n k rsB csB unpacked tile
          current) buffer =
      ⟨packTiles (s8Blocks blksz) (s8Shape n k rsB csB) unpacked tiles
          buffer.image,
        addAll (tiles.flatMap (tileWrites blksz n k rsB csB unpacked))
          buffer.words⟩ := by
  induction tiles generalizing buffer with
  | nil => rfl
  | cons tile rest ih =>
      rw [List.foldl_cons, ih, List.flatMap_cons]
      unfold addAll
      rw [List.foldl_append]
      rfl

theorem words_eq_addAll {numThreads : Int}
    (schedule : Schedule (s8Blocks blksz) (s8Shape n k rsB csB)
      (reorderThreads numThreads))
    (unpacked : Bytes) (buffer : ReorderBuffer) :
    (dlpReorderbS8s8s32o32 schedule unpacked buffer).words =
      addAll
        (schedule.order.flatMap (tileWrites blksz n k rsB csB unpacked))
        (clearColumnSums n k buffer.words) := by
  unfold dlpReorderbS8s8s32o32
  rw [foldl_packTileS8]

/-- Clear `count` words from `base` on. -/
def clearWords (base count : Nat) (words : Nat → BitVec 32) :
    Nat → BitVec 32 :=
  (List.range count).foldl
    (fun current idx => Function.update current (base + 4 * idx) 0) words

theorem clearWords_apply {base count idx : Nat} (below : idx < count)
    (words : Nat → BitVec 32) :
    clearWords base count words (base + 4 * idx) = 0 := by
  have distinct : Function.Injective fun i => base + 4 * i := by
    intro left right same
    dsimp only at same
    omega
  exact foldl_update_range distinct (fun _ => 0) words below

theorem clearWords_frame {base count address : Nat}
    (elsewhere : ∀ idx, idx < count → base + 4 * idx ≠ address)
    (words : Nat → BitVec 32) :
    clearWords base count words address = words address :=
  foldl_update_frame (fun _ => 0) words fun idx member =>
    elsewhere idx (List.mem_range.mp member)

theorem clearColumnSums_apply {j : Nat} (below : j < n)
    (words : Nat → BitVec 32) :
    clearColumnSums n k words (packBColumnSum n k + 4 * j) = 0 :=
  clearWords_apply (below.trans_le (le_roundUp (Nat.succ_pos 15) n)) words

/-- Each column sum covers all rows, whatever the team and the schedule. -/
theorem words_at_column (legal : S8Legal blksz) {numThreads : Int}
    (schedule : Schedule (s8Blocks blksz) (s8Shape n k rsB csB)
      (reorderThreads numThreads))
    (unpacked : Bytes) (buffer : ReorderBuffer) {j : Nat} (below : j < n) :
    (dlpReorderbS8s8s32o32 schedule unpacked buffer).words
        (packBColumnSum n k + 4 * j) =
      128 * ((List.range k).map fun p =>
        element unpacked rsB csB p j).sum := by
  have steps := teamSteps_chain legal.blocks
    (reorderThreads_pos numThreads) (n := n)
  have rows : Chain 0 (pcLoop k blksz.KC k 0) k :=
    pcLoop_chain legal.KC_pos k (Nat.le_add_left k 0) (Nat.zero_le k)
  have allRows := sum_chain rows fun p => element unpacked rsB csB p j
  have oneStep := sum_chain_indicator steps (Nat.zero_le j) below
    (128 * ((List.range k).map fun p => element unpacked rsB csB p j).sum)
  rw [List.map_map] at oneStep
  rw [Nat.sub_zero, ← List.range_eq_range'] at allRows
  rw [words_eq_addAll, addAll_apply, clearColumnSums_apply below, zero_add,
    addedAt_perm (schedule.perm.flatMap_right _), addedAt, sum_map_flatMap,
    teamTiles_eq_steps, sum_map_flatMap, ← oneStep]
  congr 1
  apply List.map_congr_left
  intro step _
  rw [List.map_map]
  calc
    _ = ((pcLoop k blksz.KC k 0).map fun row =>
          if step.jc ≤ j ∧ j < step.jc + step.nc0 then
            128 * ((List.range row.width).map fun kr =>
              element unpacked rsB csB (row.start + kr) j).sum
          else 0).sum := by
      congr 1
      apply List.map_congr_left
      intro row _
      exact tileWrites_added legal unpacked
        (tileAt (s8Blocks blksz) k step row) j
    _ = if step.jc ≤ j ∧ j < step.jc + step.nc0 then
          128 * ((List.range k).map fun p =>
            element unpacked rsB csB p j).sum
        else 0 := by
      by_cases inside : step.jc ≤ j ∧ j < step.jc + step.nc0
      · simp only [if_pos inside]
        rw [List.sum_map_mul_left, allRows]
      · simp only [if_neg inside]
        simp

end ColumnSums

/-! ## Addresses -/

section Addresses

variable {blksz : DlpGemmBlockSize} {m n k rsB csB : Nat}

/-- The image is the one of the reference reorder. -/
theorem image_eq_reference {numThreads : Int}
    (schedule : Schedule (s8Blocks blksz) (s8Shape n k rsB csB)
      (reorderThreads numThreads))
    (unpacked : Bytes) (buffer : ReorderBuffer) :
    (dlpReorderbS8s8s32o32 schedule unpacked buffer).image =
      dlpReorderRefReorderb schedule unpacked buffer.image := by
  unfold dlpReorderbS8s8s32o32
  rw [foldl_packTileS8]
  rfl

/-- Packed int8 tiles store an element of one of their windows at its
slot. -/
theorem s8Tiles_at_slot (legal : S8Legal blksz) {tiles : List Tile}
    (stored : ∀ tile, tile ∈ tiles → Stored legal.blocks n k tile)
    (unpacked packed : Bytes) {p j : Nat} (row : p < k) (column : j < n)
    (covered : ∃ tile, tile ∈ tiles ∧ InWindow tile p j) :
    packTiles (s8Blocks blksz) (s8Shape n k rsB csB) unpacked tiles packed
        (slotOf legal.blocks n k p j) =
      unpacked (p * rsB + j * csB) := by
  have value := @packTiles_at_slot _ legal.blocks (s8Shape n k rsB csB) tiles
    Nat.one_pos stored unpacked packed p j _ row column covered
    (Nat.div_one _)
  change _ = unpacked ((p * rsB + j * csB) * 1 + _ % 1) at value
  rw [Nat.mul_one, Nat.mod_one, Nat.add_zero] at value
  exact value

/-- Packed int8 tiles clear the slots without an element. -/
theorem s8Tiles_padding (legal : S8Legal blksz) {tiles : List Tile}
    (stored : ∀ tile, tile ∈ tiles → Stored legal.blocks n k tile)
    (unpacked packed : Bytes) {slot : Nat}
    (filled : ∃ tile, tile ∈ tiles ∧ Region (s8Blocks blksz) tile slot)
    (padding : ∀ p j, p < k → j < n →
      slotOf legal.blocks n k p j ≠ slot) :
    packTiles (s8Blocks blksz) (s8Shape n k rsB csB) unpacked tiles packed
        slot = 0 := by
  have same : slot / (s8Shape n k rsB csB).elemSz = slot := Nat.div_one slot
  apply @packTiles_padding _ legal.blocks (s8Shape n k rsB csB) tiles
    Nat.one_pos stored
  · rw [same]
    exact filled
  · rw [same]
    exact padding

/-- Packing int8 tiles elsewhere packs the same cells. -/
theorem s8Tiles_moved (unpacked : Bytes) (tiles : List Tile)
    {a b offset : Nat} {left right : Bytes}
    (same : left (a + offset) = right (b + offset)) :
    packTiles (s8Blocks blksz) (s8Shape n k rsB csB) unpacked
        (tiles.map (movedTile a)) left (a + offset) =
      packTiles (s8Blocks blksz) (s8Shape n k rsB csB) unpacked
        (tiles.map (movedTile b)) right (b + offset) := by
  have element (address : Nat) :
      address * (s8Shape n k rsB csB).elemSz = address :=
    Nat.mul_one address
  have moved := @packTiles_moved (s8Blocks blksz) (s8Shape n k rsB csB)
    unpacked tiles a b offset left right
  rw [element, element] at moved
  exact moved same

theorem image_at_slot (legal : S8Legal blksz) {numThreads : Int}
    (schedule : Schedule (s8Blocks blksz) (s8Shape n k rsB csB)
      (reorderThreads numThreads))
    (unpacked : Bytes) (buffer : ReorderBuffer) {p j : Nat} (row : p < k)
    (column : j < n) :
    (dlpReorderbS8s8s32o32 schedule unpacked buffer).image
        (slotOf legal.blocks n k p j) =
      unpacked (p * rsB + j * csB) := by
  have stored := reorderb_at_slot legal.blocks
    (reorderThreads_pos numThreads) Nat.one_pos schedule unpacked
    buffer.image row column (Nat.div_one _)
  change _ = unpacked ((p * rsB + j * csB) * 1 + _ % 1) at stored
  rw [Nat.mul_one, Nat.mod_one, Nat.add_zero] at stored
  rw [image_eq_reference]
  exact stored

/-- The column-sum offset follows `jr`, and `jr` steps by `NR`. -/
theorem jrLoop_mem {NR bUse bColSumVec fuel jr : Nat} {step : JcStep}
    {row ic : Piece} (aligned : NR ∣ jr) {call : KernelCall}
    (member : call ∈
      jrLoop NR step row ic bUse bColSumVec fuel jr jr) :
    NR ∣ call.jr ∧ call.jr < step.nc0 ∧
      call = ⟨step.jc, call.jr, min (step.nc0 - call.jr) NR, row.start,
        row.width, ic.start, ic.width,
        bUse + call.jr * dlpMakeMultipleOfN row.width 4, bColSumVec,
        call.jr⟩ := by
  induction fuel generalizing jr with
  | zero => cases member
  | succ fuel ih =>
      unfold jrLoop at member
      by_cases inside : jr < step.nc0
      · rw [if_pos inside] at member
        rcases List.mem_cons.mp member with rfl | later
        · exact ⟨aligned, inside, rfl⟩
        · exact ih (Nat.dvd_add aligned dvd_rfl) later
      · rw [if_neg inside] at member
        cases member

/-- The `jr` loop walks the columns of a step in order. -/
theorem jrLoop_pieces {NR : Nat} (step : JcStep) (row ic : Piece)
    (bUse bColSumVec fuel jr bSumOffset : Nat) :
    (jrLoop NR step row ic bUse bColSumVec fuel jr bSumOffset).map
        (fun call => (⟨call.jr, call.nr0⟩ : Piece)) =
      pcLoop step.nc0 NR fuel jr := by
  induction fuel generalizing jr bSumOffset with
  | zero => rfl
  | succ fuel ih =>
      unfold jrLoop pcLoop
      split
      · rw [List.map_cons, ih]
      · rfl

theorem jrLoop_chain {NR : Nat} (positive : 0 < NR) (step : JcStep)
    (row ic : Piece) (bUse bColSumVec : Nat) :
    Chain 0 ((jrLoop NR step row ic bUse bColSumVec step.nc0 0 0).map
      fun call => (⟨call.jr, call.nr0⟩ : Piece)) step.nc0 := by
  rw [jrLoop_pieces]
  exact pcLoop_chain positive step.nc0 (Nat.le_add_left _ 0)
    (Nat.zero_le _)

/-- The call multiplies at row `p` of B for an element of the output. -/
def KernelCall.Covers (call : KernelCall) (i j p : Nat) : Prop :=
  (⟨call.ic, call.mc0⟩ : Piece).Has i ∧
    (⟨call.jc + call.jr, call.nr0⟩ : Piece).Has j ∧
    (⟨call.pc, call.kc0⟩ : Piece).Has p

/-- The calls of a `jr` loop cover the columns of its step. -/
theorem jrLoop_covers_iff {NR : Nat} (positive : 0 < NR) (step : JcStep)
    (row ic : Piece) (bUse bColSumVec : Nat) {i j p : Nat} :
    (∃ call, call ∈ jrLoop NR step row ic bUse bColSumVec step.nc0 0 0 ∧
        call.Covers i j p) ↔
      ic.Has i ∧ step.piece.Has j ∧ row.Has p := by
  constructor
  · rintro ⟨call, member, rows, columns, depth⟩
    rcases jrLoop_mem (dvd_zero NR) member with ⟨-, inside, shape⟩
    rw [shape] at rows columns depth
    refine ⟨rows, ?_, depth⟩
    unfold Piece.Has at columns
    unfold Piece.Has JcStep.piece
    dsimp only at columns ⊢
    omega
  · rintro ⟨rows, ⟨lower, upper⟩, depth⟩
    change step.jc ≤ j at lower
    change j < step.jc + step.nc0 at upper
    rcases (jrLoop_chain positive step row ic bUse bColSumVec).exists_has
        (Nat.zero_le (j - step.jc)) (by omega) with
      ⟨_, inLoop, left, right⟩
    rcases List.mem_map.mp inLoop with ⟨call, member, rfl⟩
    rcases jrLoop_mem (dvd_zero NR) member with ⟨-, -, shape⟩
    refine ⟨call, member, ?_⟩
    have jc : call.jc = step.jc := congrArg KernelCall.jc shape
    have row : (⟨call.pc, call.kc0⟩ : Piece) = row := by
      rw [shape]
    have ic : (⟨call.ic, call.mc0⟩ : Piece) = ic := by
      rw [shape]
    dsimp only at left right
    refine ⟨ic ▸ rows, ⟨?_, ?_⟩, row ▸ depth⟩
    · dsimp only
      omega
    · dsimp only
      omega

/-- The calls of a thread cover its columns and rows over the whole depth, and
nothing else. -/
theorem rowvar_covers_iff {blksz : DlpGemmBlockSize} {m n k : Nat}
    (panels : 0 < blksz.NR) (columns : 0 < blksz.NC) (depth : 0 < blksz.KC)
    (rows : 0 < blksz.MC) (thread : DlpGemmThrinfo) {i j p : Nat} :
    (∃ call, call ∈ dlpGemmRowvarS8s8s32o32 blksz m n k thread ∧
        call.Covers i j p) ↔
      InRange (gemmIcRange thread m blksz.MR) i ∧
        InRange (gemmJcRange thread n blksz.NR) j ∧ p < k := by
  have steps := @Chain.exists_has_iff _ _ _
    (jcLoop_chain n dlpGetPackbS8s8s32o32MinNR columns
      (gemmJcRange thread n blksz.NR).2 (Nat.le_add_left _ _)
      (dlpThreadTaskRange_bounds _ _ _).1) j
  have blocks := @Chain.exists_has_iff _ _ _
    (pcLoop_chain rows (gemmIcRange thread m blksz.MR).2
      (Nat.le_add_left _ _) (dlpThreadTaskRange_bounds _ _ _).1) i
  have depths := @Chain.exists_has_iff _ _ _
    (pcLoop_chain depth k (Nat.le_add_left k 0) (Nat.zero_le k)) p
  constructor
  · rintro ⟨call, member, covers⟩
    rcases List.mem_flatMap.mp member with ⟨step, inSteps, inRows⟩
    rcases List.mem_flatMap.mp inRows with ⟨row, rowMember, inIc⟩
    rcases List.mem_flatMap.mp inIc with ⟨ic, icMember, inJr⟩
    rcases (jrLoop_covers_iff panels step row ic _ _).mp
      ⟨call, inJr, covers⟩ with ⟨inBlock, inStep, inRow⟩
    exact ⟨blocks.mp ⟨ic, icMember, inBlock⟩,
      steps.mp ⟨step.piece, List.mem_map_of_mem inSteps, inStep⟩,
      (depths.mp ⟨row, rowMember, inRow⟩).2⟩
  · rintro ⟨inIc, inJc, inK⟩
    rcases blocks.mpr inIc with ⟨ic, icMember, inBlock⟩
    rcases steps.mpr inJc with ⟨_, stepMember, inStep⟩
    rcases depths.mpr ⟨Nat.zero_le p, inK⟩ with ⟨row, rowMember, inRow⟩
    rcases List.mem_map.mp stepMember with ⟨step, inSteps, rfl⟩
    rcases (jrLoop_covers_iff panels step row ic _ _).mpr
      ⟨inBlock, inStep, inRow⟩ with ⟨call, inJr, covers⟩
    refine ⟨call, List.mem_flatMap.mpr ⟨step, inSteps, ?_⟩, covers⟩
    exact List.mem_flatMap.mpr ⟨row, rowMember,
      List.mem_flatMap.mpr ⟨ic, icMember, inJr⟩⟩

/-- The `jc` range of any thread starts and ends at whole micro panels. -/
theorem gemmJcRange_aligned (thread : DlpGemmThrinfo) (n NR : Nat) :
    let range := gemmJcRange thread n NR
    range.1 = range.2 ∨
      NR ∣ range.1 ∧ range.1 ≤ range.2 ∧
        (range.2 = n ∨ (NR ∣ range.2 ∧ range.2 ≤ n)) := by
  intro range
  let task := (dlpGemmGenDlpTaskIds (some thread)).1
  rcases Nat.lt_or_ge task.workId task.nWay with valid | retired
  · have cuts := dlpThreadTaskRange_highEdge task n NR valid
    change range = _ at cuts
    rw [cuts]
    exact Or.inr ⟨highEdgeCut_dvd n NR valid,
      highEdgeCut_le_succ task.nWay n NR task.workId,
      highEdgeCut_ends n NR valid⟩
  · have whole := dlpThreadTaskRange_retired task n NR false retired
    change range = _ at whole
    rw [whole]
    exact Or.inl rfl

/-- A call of the driver, described by the tile of its `jc` and `pc` step. -/
structure FromTile (blksz : DlpGemmBlockSize) (legal : S8Legal blksz)
    (n k : Nat) (call : KernelCall) (tile : Tile) : Prop where
  placed : tile.Placed legal.blocks n k
  jc : call.jc = tile.jc
  pc : call.pc = tile.pc
  kc0 : call.kc0 = tile.kc0
  jr_dvd : blksz.NR ∣ call.jr
  jr_lt : call.jr < tile.nc0
  nr0 : call.nr0 = min (tile.nc0 - call.jr) blksz.NR
  bAddress : call.bAddress =
    tile.off + call.jr * dlpMakeMultipleOfN tile.kc0 4
  bColSumVec : call.bColSumVec =
    dlpMakeMultipleOfN k 4 * dlpMakeMultipleOfN n 16 + 4 * tile.jc
  bSumOffset : call.bSumOffset = call.jr

theorem exists_fromTile (legal : S8Legal blksz) (thread : DlpGemmThrinfo)
    {call : KernelCall}
    (member : call ∈ dlpGemmRowvarS8s8s32o32 blksz m n k thread) :
    ∃ tile, FromTile blksz legal n k call tile := by
  rcases List.mem_flatMap.mp member with ⟨step, inSteps, inRows⟩
  rcases List.mem_flatMap.mp inRows with ⟨row, rowMember, inIc⟩
  rcases List.mem_flatMap.mp inIc with ⟨ic, _, inJr⟩
  rcases jrLoop_mem (dvd_zero blksz.NR) inJr with ⟨aligned, inside, shape⟩
  let tile := tileAt (s8Blocks blksz) k step row
  have inRange : tile ∈ rangeTiles (s8Blocks blksz) n k
      (gemmJcRange thread n blksz.NR) :=
    List.mem_flatMap.mpr ⟨step, inSteps, List.mem_map_of_mem rowMember⟩
  have placed : tile.Placed legal.blocks n k := by
    rcases gemmJcRange_aligned thread n blksz.NR with
      empty | ⟨startAligned, bounded, ends⟩
    · change step ∈ jcLoop n blksz.NC _ _ _ _ at inSteps
      rw [jcLoop_eq_nil n blksz.NC _ _ empty.ge] at inSteps
      cases inSteps
    · exact rangeTiles_placed legal.blocks startAligned bounded ends inRange
  rw [shape]
  exact ⟨tile, placed, rfl, rfl, rfl, aligned, inside, rfl, rfl, rfl, rfl⟩

section FromTile

variable {legal : S8Legal blksz} {call : KernelCall} {tile : Tile}

theorem FromTile.column_lt (origin : FromTile blksz legal n k call tile) :
    call.jc + call.jr < n := by
  rw [origin.jc]
  exact (Nat.add_lt_add_left origin.jr_lt _).trans_le
    origin.placed.column_end_le

theorem FromTile.column_dvd (origin : FromTile blksz legal n k call tile) :
    blksz.NR ∣ call.jc + call.jr := by
  rw [origin.jc]
  exact Nat.dvd_add origin.placed.aligned origin.jr_dvd

/-- The address handed to the micro-kernel is the slot of the first element. -/
theorem FromTile.bAddress_eq_slotOf
    (origin : FromTile blksz legal n k call tile) :
    call.bAddress =
      slotOf legal.blocks n k call.pc (call.jc + call.jr) := by
  have slot := slotOf_eq_tile_offset origin.placed origin.placed.kc0_pos
    origin.jr_lt
  have start : chunkStart tile.nc0 (s8Blocks blksz).NR
      (s8Blocks blksz).minNR call.jr = call.jr :=
    legal.blocks.widths.chunkStart_of_dvd origin.jr_dvd origin.jr_lt.le
  rw [start, Nat.sub_self] at slot
  rw [origin.bAddress, origin.pc, origin.jc, ← Nat.add_zero tile.pc, ← slot]
  simp only [dlpReorderElemOffset, Nat.zero_div, Nat.zero_mod, Nat.zero_mul,
    Nat.add_zero]
  rfl

/-- The column-sum pointer follows the column of the call. -/
theorem FromTile.columnSum_address
    (origin : FromTile blksz legal n k call tile) :
    call.bColSumVec + 4 * call.bSumOffset =
      packBColumnSum n k + 4 * (call.jc + call.jr) := by
  rw [origin.bColSumVec, origin.bSumOffset, origin.jc, packBColumnSum]
  ring

end FromTile

/-- Tiles that hold a micro panel agree on how much of it is live. -/
theorem remaining_eq (legal : S8Legal blksz) {tile : Tile} {column : Nat}
    (placed : tile.Placed legal.blocks n k) (aligned : blksz.NR ∣ column)
    (inside : column < tile.jc + tile.nc0) :
    min (tile.jc + tile.nc0 - column) blksz.NR =
      min (n - column) blksz.NR := by
  rcases placed.ends with last | ⟨divides, fits⟩
  · rw [last]
  · have next : column + blksz.NR ≤ tile.jc + tile.nc0 :=
      add_le_of_dvd_lt aligned (Nat.dvd_add placed.aligned divides) inside
    omega

theorem chunkCols_min (NR remaining : Nat) :
    chunkCols NR 16 remaining = chunkCols NR 16 (min remaining NR) := by
  rcases Nat.le_total NR remaining with whole | short
  · simp [chunkCols, whole]
  · rw [min_eq_left short]

theorem chunkCols_eq (legal : S8Legal blksz) {nr0 : Nat}
    (bounded : nr0 ≤ blksz.NR) :
    chunkCols blksz.NR 16 nr0 =
      if nr0 < 16 then nr0 else nr0 / 16 * 16 := by
  have positive := legal.NR_pos
  rcases legal.NR_dvd with ⟨panels, size⟩
  unfold chunkCols
  split_ifs <;> omega

/-- The reorder's chunk at the first row and column of a call. -/
structure HasChunk (blksz : DlpGemmBlockSize) (call : KernelCall)
    (tile : Tile) (chunk : DlpReorderChunk) : Prop where
  visited : chunk ∈ panelChunks tile.nc0 blksz.NR
    dlpGetPackbS8s8s32o32MinNR (dlpMakeMultipleOfN tile.kc0 4)
  pc : tile.pc = call.pc
  kc0 : tile.kc0 = call.kc0
  column : tile.jc + chunk.colStart = call.jc + call.jr
  cols : chunk.cols =
    if call.nr0 < 16 then call.nr0 else call.nr0 / 16 * 16

theorem exists_hasChunk {legal : S8Legal blksz} {call : KernelCall}
    {gemmTile : Tile} (origin : FromTile blksz legal n k call gemmTile)
    {team : Nat} (delivered : 0 < team) :
    ∃ tile, tile ∈ teamTiles (s8Blocks blksz) n k team ∧
      ∃ chunk, HasChunk blksz call tile chunk := by
  have column := origin.column_lt
  have row : call.pc < k := origin.pc ▸ origin.placed.row_lt
  rcases exists_window legal.blocks delivered row column with
    ⟨tile, member, rows, columns⟩
  have placed := teamTiles_placed legal.blocks member
  have samePc : tile.pc = call.pc := by
    have block := blockStart_eq placed.row_dvd rows.1
      (rows.2.trans_le (Nat.add_le_add_left
        (placed.kc0_eq.trans_le (min_le_right _ _)) _))
    rw [← block, origin.pc]
    exact blockStart_eq origin.placed.row_dvd le_rfl
      (Nat.lt_add_of_pos_right legal.KC_pos)
  have sameKc0 : tile.kc0 = call.kc0 := by
    rw [placed.kc0_eq, origin.kc0, origin.placed.kc0_eq, samePc, origin.pc]
  rcases Nat.exists_eq_add_of_le columns.1 with ⟨col, atColumn⟩
  have inTile : col < tile.nc0 := by
    rw [atColumn] at columns
    exact Nat.lt_of_add_lt_add_left columns.2
  rcases panelChunks_covers legal.blocks.widths
      (dlpMakeMultipleOfN tile.kc0 4) inTile with
    ⟨chunk, visited, lower, upper⟩
  have isChunk := panelChunks_isChunk legal.blocks.widths visited
  have atStart : chunk.colStart = col := by
    have colDvd : blksz.NR ∣ col :=
      (Nat.dvd_add_right placed.aligned).mp (atColumn ▸ origin.column_dvd)
    have own := (isChunk.column (col - chunk.colStart) (by omega)).1
    rw [Nat.add_sub_of_le lower, legal.blocks.widths.chunkStart_of_dvd colDvd
      inTile.le] at own
    exact own.symm
  refine ⟨tile, member, chunk, visited, samePc, sameKc0,
    by rw [atStart, atColumn], ?_⟩
  have reorderRest := remaining_eq legal placed origin.column_dvd columns.2
  have gemmRest := remaining_eq legal origin.placed
    origin.column_dvd (origin.jc ▸ Nat.add_lt_add_left origin.jr_lt gemmTile.jc)
  have live : min (tile.nc0 - chunk.colStart) blksz.NR = call.nr0 := by
    rw [origin.nr0]
    rw [atColumn, Nat.add_sub_add_left] at reorderRest
    rw [origin.jc, Nat.add_sub_add_left] at gemmRest
    rw [atStart, reorderRest, gemmRest, ← atColumn, origin.jc]
  have bounded : call.nr0 ≤ blksz.NR := live ▸ min_le_right _ _
  rw [chunkLoop_cols visited]
  change chunkCols blksz.NR 16 _ = _
  rw [chunkCols_min, live, chunkCols_eq legal bounded]

section HasChunk

variable (legal : S8Legal blksz) {call : KernelCall} {tile : Tile}
    {chunk : DlpReorderChunk}

/-- The chunk's elements lie at the slots of the call's elements. -/
theorem HasChunk.slot (has : HasChunk blksz call tile chunk)
    (placed : tile.Placed legal.blocks n k) {kr i : Nat}
    (row : kr < call.kc0) (inside : i < chunk.cols) :
    tile.off + chunk.offset + dlpReorderElemOffset kr i chunk.slot 4 =
      slotOf legal.blocks n k (call.pc + kr) (call.jc + call.jr + i) := by
  rw [← has.pc, ← has.column]
  exact chunk_eq_slotOf placed has.visited (has.kc0 ▸ row) inside

theorem HasChunk.row_lt (has : HasChunk blksz call tile chunk)
    (placed : tile.Placed legal.blocks n k) {kr : Nat}
    (row : kr < call.kc0) : call.pc + kr < k := by
  have live := placed.kc0_eq
  have start := placed.row_lt
  rw [has.kc0, has.pc] at live
  rw [has.pc] at start
  omega

theorem HasChunk.column_lt (has : HasChunk blksz call tile chunk)
    (placed : tile.Placed legal.blocks n k) {i : Nat}
    (inside : i < chunk.cols) : call.jc + call.jr + i < n := by
  have fits := placed.column_end_le
  have inPanel :=
    (panelChunks_isChunk legal.blocks.widths has.visited).inside
  rw [← has.column]
  omega

/-- The address of the call is the first slot of the chunk. -/
theorem HasChunk.bAddress_eq {gemmTile : Tile}
    (has : HasChunk blksz call tile chunk)
    (placed : tile.Placed legal.blocks n k)
    (origin : FromTile blksz legal n k call gemmTile) :
    call.bAddress = tile.off + chunk.offset := by
  have rows : 0 < call.kc0 := origin.kc0 ▸ origin.placed.kc0_pos
  have first := has.slot legal placed rows
    (panelChunks_isChunk legal.blocks.widths has.visited).nonempty
  rw [origin.bAddress_eq_slotOf]
  simpa [dlpReorderElemOffset] using first.symm

end HasChunk

/--
Addressing agreement.  For every micro-kernel call of every GEMM thread there
is a chunk, of a tile of the reorder's own team, that starts at the call's
first row and column: the call's address is where the reorder stored that
chunk, its elements are the matrix elements of the chunk, and the column-sum
pointer of the call is the word that holds the sum of column `jc + jr`.
-/
theorem reordered_addresses_agree (nrPositive : 0 < blksz.NR)
    (nrMultiple : 16 ∣ blksz.NR) (ncPositive : 0 < blksz.NC)
    (ncMultiple : blksz.NR ∣ blksz.NC) (kcPositive : 0 < blksz.KC)
    (kcMultiple : 4 ∣ blksz.KC) {numThreads : Int}
    (schedule : Schedule (s8Blocks blksz) (s8Shape n k rsB csB)
      (reorderThreads numThreads))
    (unpacked : Bytes) (buffer : ReorderBuffer) (thread : DlpGemmThrinfo)
    (call : KernelCall)
    (member : call ∈ dlpGemmRowvarS8s8s32o32 blksz m n k thread) :
    let result := dlpReorderbS8s8s32o32 schedule unpacked buffer
    call.jc + call.jr < n ∧ call.pc < k ∧
      (∃ tile, tile ∈ teamTiles (s8Blocks blksz) n k
          (reorderThreads numThreads) ∧
        ∃ chunk, chunk ∈ panelChunks tile.nc0 blksz.NR
            dlpGetPackbS8s8s32o32MinNR (dlpMakeMultipleOfN tile.kc0 4) ∧
          tile.pc = call.pc ∧ tile.kc0 = call.kc0 ∧
          tile.jc + chunk.colStart = call.jc + call.jr ∧
          chunk.cols =
            (if call.nr0 < 16 then call.nr0 else call.nr0 / 16 * 16) ∧
          call.bAddress = tile.off + chunk.offset ∧
          ∀ kr i, kr < call.kc0 → i < chunk.cols →
            result.image (call.bAddress +
                dlpReorderElemOffset kr i chunk.slot 4) =
              unpacked ((call.pc + kr) * rsB +
                (call.jc + call.jr + i) * csB)) ∧
      call.bColSumVec + 4 * call.bSumOffset =
        packBColumnSum n k + 4 * (call.jc + call.jr) ∧
      result.words (call.bColSumVec + 4 * call.bSumOffset) =
        128 * ((List.range k).map fun p =>
          widen (unpacked (p * rsB + (call.jc + call.jr) * csB))).sum := by
  have legal : S8Legal blksz := ⟨nrPositive, nrMultiple, ncPositive,
    ncMultiple, kcPositive, kcMultiple⟩
  intro result
  rcases exists_fromTile legal thread member with ⟨gemmTile, origin⟩
  have column := origin.column_lt
  have sumAddress := origin.columnSum_address
  refine ⟨column, origin.pc ▸ origin.placed.row_lt, ?_, sumAddress, ?_⟩
  · rcases exists_hasChunk origin (reorderThreads_pos numThreads) with
      ⟨tile, inTeam, chunk, has⟩
    have placed := teamTiles_placed legal.blocks inTeam
    have address := has.bAddress_eq legal placed origin
    refine ⟨tile, inTeam, chunk, has.visited, has.pc, has.kc0, has.column,
      has.cols, address, ?_⟩
    intro kr i row inside
    rw [address, has.slot legal placed row inside]
    exact image_at_slot legal schedule unpacked buffer
      (has.row_lt legal placed row) (has.column_lt legal placed inside)
  · rw [sumAddress]
    exact words_at_column legal schedule unpacked buffer column

end Addresses

/-- A narrow blocking with fringe columns and a padded last row block. -/
def narrowBlksz : DlpGemmBlockSize :=
  ⟨12, 64, 8, 6, 32⟩

/-- The call of the second of two GEMM threads at its first column. -/
def fringeCall : KernelCall :=
  ⟨32, 0, 8, 8, 3, 0, 2, 512, 704, 0⟩

/-- A team of three reorders, the second of two threads multiplies. -/
theorem reordered_addresses_agree_fringe :
    (dlpReorderbS8s8s32o32
        (Schedule.inOrder (s8Blocks narrowBlksz) (s8Shape 40 11 40 1)
          (reorderThreads 3))
        (fun address => UInt8.ofNat address)
        ⟨fun _ => 7, fun _ => 9⟩).words
      (fringeCall.bColSumVec + 4 * fringeCall.bSumOffset) =
    128 * ((List.range 11).map fun p =>
      widen (UInt8.ofNat (p * 40 + 32 * 1))).sum := by
  have executed : fringeCall ∈ dlpGemmRowvarS8s8s32o32 narrowBlksz 2 40 11
      ⟨2, 1, 1, 2⟩ := by decide
  exact (reordered_addresses_agree (by decide) (by decide) (by decide)
    (by decide) (by decide) (by decide)
    (Schedule.inOrder (s8Blocks narrowBlksz) (s8Shape 40 11 40 1)
      (reorderThreads 3))
    (fun address => UInt8.ofNat address) ⟨fun _ => 7, fun _ => 9⟩
    ⟨2, 1, 1, 2⟩ fringeCall executed).2.2.2.2

end AoclDlp.Layout.S8s8s32
