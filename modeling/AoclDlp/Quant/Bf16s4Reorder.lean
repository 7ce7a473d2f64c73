import AoclDlp.Layout.Nibbles
import AoclDlp.Layout.TunedBf16

/-!
# The int4 reorder of the BF16 path

`dlp_reorderb_nr64_bf16s4f32of32` walks the columns like the BF16 reorder.  It
computes the offsets of a tile in nibbles and halves them, since the buffers
are addressed in bytes.  The packer follows the reference chunk rule, nibble
by nibble.

No halved offset is odd, so the nibbles of the buffer are the packed image of
the nibbles of the matrix.
-/

namespace AoclDlp.Quant.Bf16s4Reorder

open AoclDlp.Config.BlockSize
open AoclDlp.Foundations.Memory
open AoclDlp.Layout.Bf16Fallback
open AoclDlp.Layout.GroupTiles
open AoclDlp.Layout.Nibbles
open AoclDlp.Layout.Panel
open AoclDlp.Layout.ReorderRef
open AoclDlp.Layout.TeamTiles
open AoclDlp.Layout.TunedBf16
open AoclDlp.Quant.ShortTeam

/-! ## The reorder -/

/-- A strided matrix of nibbles. -/
def nibbleShape (n k rsB csB : Nat) : MatrixShape :=
  ⟨n, k, rsB, csB, 1⟩

/-- The bytes that hold a run of nibbles. -/
def nibbleBytes (nibbles : Bytes) : Bytes := fun address =>
  nibblePair (nibbles (2 * address)) (nibbles (2 * address + 1))

/-- `packb_fun_ptr`: the chunk rule on the nibbles of the two buffers; the two
pointers are byte offsets. -/
def packS4 (NR packB b rsB csB nc0 kc0 : Nat) (unpacked packed : Bytes) :
    Bytes :=
  nibbleBytes
    (dlpReorderRefPackb (2 * packB) (2 * b) 1 2 nc0 kc0 NR
      dlpGetPackbBf16bf16f32of32MinNR rsB csB (nibbleAt unpacked)
      (nibbleAt packed))

/-- The pack kernel at one tile, whose offset counts nibbles. -/
def packHalved (blksz : DlpGemmBlockSize) (rsB csB : Nat) (unpacked : Bytes)
    (tile : Tile) (packed : Bytes) : Bytes :=
  packS4 blksz.NR (tile.off / 2) ((rsB * tile.pc + tile.jc * csB) / 2) rsB
    csB tile.nc0 tile.kc0 unpacked packed

/-- `dlp_reorderb_nr64_bf16s4f32of32`. -/
def dlpReorderbNr64Bf16s4f32of32 {blksz : DlpGemmBlockSize}
    {n k ways team : Nat} (rsB csB : Nat)
    (walk : TunedOrder blksz n k ways team) (unpacked packed : Bytes) :
    Bytes :=
  walk.order.foldl
    (fun current tile => packHalved blksz rsB csB unpacked tile current)
    packed

/-- The offsets that the delivered threads halve. -/
def reorderHalves (blksz : DlpGemmBlockSize) (n k rsB csB ways team : Nat) :
    List Nat :=
  (tunedTiles blksz n k ways team).flatMap fun tile =>
    [tile.off, rsB * tile.pc + tile.jc * csB]

/-! ## The nibbles of a buffer -/

theorem nibbleAt_isS4 (source : Bytes) (idx : Nat) :
    IsS4 (nibbleAt source idx) :=
  isS4_nibble _ _

/-- Sign-extended nibbles are read back from their bytes. -/
theorem nibbleAt_nibbleBytes {nibbles : Bytes}
    (extended : ∀ idx, IsS4 (nibbles idx)) :
    nibbleAt (nibbleBytes nibbles) = nibbles := by
  funext idx
  unfold nibbleAt nibbleBytes
  rw [nibble_pair (extended _) (extended _)]
  split
  next even => exact congrArg nibbles (by omega)
  next odd => exact congrArg nibbles (by omega)

theorem pair_of_extended : ∀ bits : BitVec 8,
    (((((bits &&& 15#8) ^^^ 8#8) - 8#8) &&& 15#8) |||
      (((((bits >>> 4 &&& 15#8) ^^^ 8#8) - 8#8) &&& 15#8) <<< 4)) = bits := by
  decide

/-- A buffer is the bytes of its nibbles, so that the pack kernel keeps the
bytes whose nibbles it does not pack. -/
theorem nibbleBytes_nibbleAt (source : Bytes) :
    nibbleBytes (nibbleAt source) = source := by
  funext address
  unfold nibbleBytes nibbleAt
  rw [Nat.mul_div_cancel_left address Nat.two_pos, Nat.mul_mod_right,
    Nat.mul_add_div Nat.two_pos, Nat.mul_add_mod]
  exact UInt8.toBitVec_inj.mp (pair_of_extended (source address).toBitVec)

section Tile

variable {blksz : DlpGemmBlockSize} {n k rsB csB : Nat} {tile : Tile}

/-- The tiles of the walk start at even nibbles. -/
theorem even_off {legal : (bf16Blocks blksz).Legal}
    (placed : tile.Placed legal n k) : 2 ∣ tile.off :=
  kFactor_dvd_off placed

/-- They are read from even nibbles, whatever the strides. -/
theorem even_source {legal : (bf16Blocks blksz).Legal}
    (placed : tile.Placed legal n k) (rsB csB : Nat) :
    2 ∣ rsB * tile.pc + tile.jc * csB := by
  have rows : 2 ∣ tile.pc := kFactor_dvd_pc placed
  have wide : 16 ∣ blksz.NR := legal.widths.divides
  have columns : 2 ∣ tile.jc :=
    (show 2 ∣ 16 by decide).trans (wide.trans placed.aligned)
  exact Nat.dvd_add (rows.mul_left rsB) (columns.mul_right csB)

/-- At even offsets the pack kernel packs the nibbles of the tile. -/
theorem nibbleAt_packHalved (evenOff : 2 ∣ tile.off)
    (evenSource : 2 ∣ rsB * tile.pc + tile.jc * csB)
    (unpacked packed : Bytes) :
    nibbleAt (packHalved blksz rsB csB unpacked tile packed) =
      packTile (bf16Blocks blksz) (nibbleShape n k rsB csB)
        (nibbleAt unpacked) tile (nibbleAt packed) := by
  have packs : packHalved blksz rsB csB unpacked tile packed =
      nibbleBytes (packTile (bf16Blocks blksz) (nibbleShape n k rsB csB)
        (nibbleAt unpacked) tile (nibbleAt packed)) := by
    unfold packHalved packS4 packTile
    rw [Nat.mul_div_cancel' evenOff, Nat.mul_div_cancel' evenSource]
    change _ = nibbleBytes (dlpReorderRefPackb (tile.off * 1)
      ((rsB * tile.pc + tile.jc * csB) * 1) 1 2 tile.nc0 tile.kc0 blksz.NR
      dlpGetPackbBf16bf16f32of32MinNR rsB csB _ _)
    rw [Nat.mul_one, Nat.mul_one]
  rw [packs]
  apply nibbleAt_nibbleBytes
  intro idx
  rw [packTile_eq_copyElems]
  exact copyElems_all _ (nibbleAt_isS4 unpacked)
    (fill_all isS4_zero (nibbleAt_isS4 packed) _ _) idx

end Tile

/-! ## The image -/

section Image

variable {blksz : DlpGemmBlockSize} {n k rsB csB ways team : Nat}

theorem tunedTiles_placed (legal : (bf16Blocks blksz).Legal)
    (atMost : team ≤ ways) {tile : Tile}
    (member : tile ∈ tunedTiles blksz n k ways team) :
    tile.Placed legal n k := by
  rw [tunedTiles_eq] at member
  exact teamTiles_placed legal (deliveredTiles_mem atMost member)

/-- Every halved offset of the reorder is even. -/
theorem reorderHalves_even (legal : (bf16Blocks blksz).Legal)
    (atMost : team ≤ ways) {offset : Nat}
    (member : offset ∈ reorderHalves blksz n k rsB csB ways team) :
    2 ∣ offset := by
  rcases List.mem_flatMap.mp member with ⟨tile, inTiles, inPair⟩
  have placed := tunedTiles_placed legal atMost inTiles
  rcases List.mem_cons.mp inPair with rfl | inRest
  · exact even_off placed
  · rw [List.mem_singleton.mp inRest]
    exact even_source placed rsB csB

/-- The nibbles of the buffer are the packed nibbles of the matrix. -/
theorem nibbleAt_reorderb (legal : (bf16Blocks blksz).Legal)
    (atMost : team ≤ ways) (walk : TunedOrder blksz n k ways team)
    (unpacked packed : Bytes) :
    nibbleAt (dlpReorderbNr64Bf16s4f32of32 rsB csB walk unpacked packed) =
      packTiles (bf16Blocks blksz) (nibbleShape n k rsB csB)
        (nibbleAt unpacked) walk.order (nibbleAt packed) := by
  have placed : ∀ tile, tile ∈ walk.order → tile.Placed legal n k :=
    fun tile member =>
      tunedTiles_placed legal atMost (walk.perm.mem_iff.mp member)
  unfold dlpReorderbNr64Bf16s4f32of32 packTiles
  generalize walk.order = order at placed ⊢
  induction order generalizing packed with
  | nil => rfl
  | cons tile rest ih =>
      have here := placed tile List.mem_cons_self
      rw [List.foldl_cons, List.foldl_cons,
        ih _ fun other member => placed other (List.mem_cons_of_mem _ member),
        @nibbleAt_packHalved blksz n k _ _ _ (even_off here)
          (even_source here rsB csB)]

/-- With covering threads every element is stored at its slot. -/
theorem reorderb_at_nibble (legal : (bf16Blocks blksz).Legal)
    (delivered : 0 < team) (atMost : team ≤ ways)
    (covers : Covers blksz.NR n ways team)
    (walk : TunedOrder blksz n k ways team) (unpacked packed : Bytes)
    {p j : Nat} (row : p < k) (column : j < n) :
    nibbleAt (dlpReorderbNr64Bf16s4f32of32 rsB csB walk unpacked packed)
        (slotOf legal n k p j) =
      nibbleAt unpacked (p * rsB + j * csB) := by
  have tiles := @deliveredTiles_eq (bf16Blocks blksz) n k ways team
    legal.widths.NR_pos atMost covers
  rcases exists_window legal (delivered.trans_le atMost) row column with
    ⟨tile, inTeam, window⟩
  have inOrder : tile ∈ walk.order := by
    rw [walk.perm.mem_iff, tunedTiles_eq, tiles]
    exact inTeam
  have value := @packTiles_at_slot _ legal (nibbleShape n k rsB csB)
    walk.order Nat.one_pos
    (fun other member => stored_of_placed
      (tunedTiles_placed legal atMost (walk.perm.mem_iff.mp member)))
    (nibbleAt unpacked) (nibbleAt packed) p j _ row column
    ⟨tile, inOrder, window⟩ (Nat.div_one _)
  change _ = nibbleAt unpacked ((p * rsB + j * csB) * 1 + _ % 1) at value
  rw [Nat.mul_one, Nat.mod_one, Nat.add_zero] at value
  rw [nibbleAt_reorderb legal atMost]
  exact value

/-- Otherwise the slot of some element keeps its old nibble. -/
theorem exists_stale (legal : (bf16Blocks blksz).Legal) (columns : 0 < n)
    (depth : 0 < k) (delivered : 0 < team) (atMost : team ≤ ways)
    (uncovered : ¬ Covers blksz.NR n ways team) :
    ∃ p j, p < k ∧ j < n ∧
      ∀ (walk : TunedOrder blksz n k ways team) (unpacked packed : Bytes),
        nibbleAt
            (dlpReorderbNr64Bf16s4f32of32 rsB csB walk unpacked packed)
            (slotOf legal n k p j) =
          nibbleAt packed (slotOf legal n k p j) := by
  rcases exists_lost legal columns depth delivered atMost uncovered with
    ⟨p, j, lost⟩
  refine ⟨p, j, lost.row, lost.column, ?_⟩
  intro walk unpacked packed
  rw [nibbleAt_reorderb legal atMost]
  apply packTiles_frame legal Nat.one_pos
  intro tile member
  change ¬ Region _ tile (slotOf legal n k p j / 1)
  rw [Nat.div_one]
  apply lost.unfilled
  rw [← tunedTiles_eq]
  exact walk.perm.mem_iff.mp member

end Image

end AoclDlp.Quant.Bf16s4Reorder
