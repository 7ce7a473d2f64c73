import AoclDlp.Layout.Bf16Fallback
import AoclDlp.Quant.S4Reorder

/-!
# Native reorders under a short team

The native reorders split the columns among the threads they ask OpenMP for
and take the work id from the team that OpenMP delivers.  When the team is
smaller, the ranges of the missing work ids are packed by nobody.

The reference walk reads its number of ways inside the parallel region and
does not depend on the team.
-/

namespace AoclDlp.Quant.ShortTeam

open AoclDlp.Config.BlockSize
open AoclDlp.Foundations.Accumulation
open AoclDlp.Foundations.Interleaving
open AoclDlp.Foundations.Rounding
open AoclDlp.Layout.Bf16Fallback
open AoclDlp.Layout.Chunk
open AoclDlp.Layout.GroupTiles
open AoclDlp.Layout.Nibbles
open AoclDlp.Layout.Panel
open AoclDlp.Layout.ReorderRef
open AoclDlp.Layout.S8s8s32
open AoclDlp.Layout.TeamTiles
open AoclDlp.Quant.GroupReorder
open AoclDlp.Quant.S4Reorder
open AoclDlp.Threading.TaskRange

/-! ## The delivered threads -/

/-- The tiles of the delivered threads when the columns are split `ways`
ways. -/
def deliveredTiles (blocks : Blocks) (n k ways team : Nat) : List Tile :=
  (List.range team).flatMap fun tid =>
    rangeTiles blocks n k (threadRange blocks n ways tid)

/-- An order in which the delivered threads execute their tiles. -/
structure Delivered (blocks : Blocks) (shape : MatrixShape)
    (ways team : Nat) where
  order : List Tile
  perm : order.Perm (deliveredTiles blocks shape.n shape.k ways team)

/-- A whole team is delivered. -/
def Delivered.ofSchedule {blocks : Blocks} {shape : MatrixShape}
    {team : Nat} (schedule : Schedule blocks shape team) :
    Delivered blocks shape team team :=
  ⟨schedule.order, schedule.perm⟩

/-- The delivered threads one after the other. -/
def Delivered.inOrder (blocks : Blocks) (shape : MatrixShape)
    (ways team : Nat) : Delivered blocks shape ways team :=
  ⟨deliveredTiles blocks shape.n shape.k ways team, .refl _⟩

/-- `dlp_reorderb_s8s8s32o32` with the delivered threads. -/
def deliveredReorderbS8s8s32o32 {blksz : DlpGemmBlockSize}
    {n k rsB csB ways team : Nat}
    (delivered : Delivered (s8Blocks blksz) (s8Shape n k rsB csB) ways team)
    (unpacked : Bytes) (buffer : ReorderBuffer) : ReorderBuffer :=
  delivered.order.foldl
    (fun current tile => packTileS8 blksz n k rsB csB unpacked tile current)
    { buffer with words := clearColumnSums n k buffer.words }

/-- With a whole team this is the reorder of the int8 layout. -/
theorem delivered_ofSchedule {blksz : DlpGemmBlockSize}
    {n k rsB csB : Nat} {numThreads : Int}
    (schedule : Schedule (s8Blocks blksz) (s8Shape n k rsB csB)
      (reorderThreads numThreads))
    (unpacked : Bytes) (buffer : ReorderBuffer) :
    deliveredReorderbS8s8s32o32 (.ofSchedule schedule) unpacked buffer =
      dlpReorderbS8s8s32o32 schedule unpacked buffer :=
  rfl

/-- A strided bfloat16 matrix. -/
def bf16Shape (n k rsB csB : Nat) : MatrixShape :=
  ⟨n, k, rsB, csB, 2⟩

/-- `dlp_reorderb_nr64_bf16bf16f32of32` with the delivered threads. -/
def dlpReorderbNr64Bf16bf16f32of32 {blksz : DlpGemmBlockSize}
    {n k rsB csB ways team : Nat}
    (delivered : Delivered (bf16Blocks blksz) (bf16Shape n k rsB csB) ways
      team)
    (unpacked packed : Bytes) : Bytes :=
  packTiles (bf16Blocks blksz) (bf16Shape n k rsB csB) unpacked
    delivered.order packed

/-- The actions of the delivered threads of the fused int4 reorder. -/
def deliveredOps (table : DlpGemmBlockSize) (groupSize n k ways team : Nat) :
    List StripOp :=
  (List.range team).flatMap (threadOps table groupSize n k ways)

/-- The fused `dlp_reorderb_nr64_s8s4s32o32` with the delivered threads. -/
def deliveredReorderbNr64S8s4s32o32 {table : DlpGemmBlockSize}
    {groupSize n k ways team : Nat} (rsB csB : Nat)
    (delivered : Interleaved StripOp.workId
      (deliveredOps table groupSize n k ways team))
    (b pool : Bytes) (buffer : ReorderBuffer) : ReorderBuffer :=
  let blksz := reorderBlksz table groupSize k
  let done := delivered.order.foldl
    (fun memory op =>
      runStripOp blksz n k (packerRs rsB csB) csB (nibbleAt b) op memory)
    (fusedStart blksz.KC groupSize n k pool buffer)
  ⟨done.weights, done.words⟩

/-- With a whole team this is the fused int4 reorder. -/
theorem delivered_fused {table : DlpGemmBlockSize}
    {groupSize n k : Nat} {numThreads : Int} (rsB csB : Nat)
    (schedule : Interleaved StripOp.workId
      (teamOps table groupSize n k (reorderThreads numThreads)))
    (b pool : Bytes) (buffer : ReorderBuffer) :
    @deliveredReorderbNr64S8s4s32o32 table groupSize n k
        (reorderThreads numThreads) (reorderThreads numThreads) rsB csB
        schedule b pool buffer =
      dlpReorderbNr64S8s4s32o32 rsB csB schedule b pool buffer :=
  rfl

/-! ## When the delivered threads cover all columns -/

/-- The whole team is delivered, or the columns are full blocks and there is
a delivered thread for each. -/
def Covers (NR n ways team : Nat) : Prop :=
  team = ways ∨ NR ∣ n ∧ n ≤ team * NR

instance (NR n ways team : Nat) : Decidable (Covers NR n ways team) :=
  inferInstanceAs (Decidable (_ ∨ _))

/-- The first column that no delivered thread owns. -/
theorem cut_eq_iff {NR n ways team : Nat} (positive : 0 < NR)
    (atMost : team ≤ ways) :
    highEdgeCut ways n NR team = n ↔ Covers NR n ways team := by
  unfold highEdgeCut Covers
  rcases Nat.lt_or_eq_of_le atMost with short | rfl
  · rw [if_pos short, or_iff_right (Nat.ne_of_lt short)]
    constructor
    · intro whole
      have divides : NR ∣ n := ⟨_, (whole.symm.trans (Nat.mul_comm _ _))⟩
      rcases divides with ⟨count, rfl⟩
      refine ⟨Nat.dvd_mul_right NR count, ?_⟩
      rw [Nat.mul_div_cancel_left count positive, Nat.mul_comm NR] at whole
      have blocks := Nat.eq_of_mul_eq_mul_right positive whole
      have split := Nat.div_add_mod count ways
      rcases Nat.exists_eq_add_of_lt short with ⟨rest, rfl⟩
      generalize count / (team + rest + 1) = each at blocks split
      generalize count % (team + rest + 1) = extra at blocks split
      have none : (rest + 1) * each = 0 := by
        have more : (team + rest + 1) * each =
            team * each + (rest + 1) * each := by ring
        omega
      have idle : each = 0 := by
        rcases Nat.mul_eq_zero.mp none with absurd | idle
        · exact Nat.noConfusion absurd
        · exact idle
      rw [idle] at blocks
      rw [Nat.mul_comm NR]
      exact Nat.mul_le_mul_right NR (by omega)
    · rintro ⟨⟨count, rfl⟩, fits⟩
      rw [Nat.mul_comm NR] at fits
      have few : count ≤ team := Nat.le_of_mul_le_mul_right fits positive
      rw [Nat.mul_div_cancel_left count positive,
        Nat.div_eq_of_lt (few.trans_lt short),
        Nat.mod_eq_of_lt (few.trans_lt short), Nat.mul_zero, Nat.zero_add,
        min_eq_right few, Nat.mul_comm]
  · exact iff_of_true (if_neg (lt_irrefl _)) (Or.inl rfl)

theorem cut_mono (ways n NR : Nat) : Monotone (highEdgeCut ways n NR) :=
  monotone_nat_of_le_succ (highEdgeCut_le_succ ways n NR)

theorem cut_le (NR n : Nat) {ways team : Nat} (atMost : team ≤ ways) :
    highEdgeCut ways n NR team ≤ n :=
  (cut_mono ways n NR atMost).trans_eq (if_neg (lt_irrefl ways))

section Tiles

variable {blocks : Blocks} {n k ways team : Nat}

/-- The tiles of a thread lie in its column range. -/
theorem rangeTiles_bounds (legal : blocks.Legal) {tid : Nat}
    (valid : tid < ways) {tile : Tile}
    (member : tile ∈ rangeTiles blocks n k (threadRange blocks n ways tid)) :
    highEdgeCut ways n blocks.NR tid ≤ tile.jc ∧
      tile.jc + tile.nc0 ≤ highEdgeCut ways n blocks.NR (tid + 1) := by
  rw [threadRange_eq valid] at member
  rcases List.mem_flatMap.mp member with ⟨step, inLoop, inRows⟩
  rcases List.mem_map.mp inRows with ⟨row, -, rfl⟩
  have chain := jcLoop_chain n blocks.minNR legal.NC_pos
    (highEdgeCut ways n blocks.NR (tid + 1)) (Nat.le_add_left _ _)
    (highEdgeCut_le_succ ways n blocks.NR tid)
  have bounds := chain.bounds (List.mem_map_of_mem inLoop)
  exact ⟨bounds.1, bounds.2.2⟩

theorem deliveredTiles_mem (atMost : team ≤ ways) {tile : Tile}
    (member : tile ∈ deliveredTiles blocks n k ways team) :
    tile ∈ teamTiles blocks n k ways := by
  rcases List.mem_flatMap.mp member with ⟨tid, inTeam, inRange⟩
  exact List.mem_flatMap.mpr ⟨tid, List.mem_range.mpr
    ((List.mem_range.mp inTeam).trans_le atMost), inRange⟩

/-- The delivered threads stay in front of the first column that none of
them owns. -/
theorem deliveredTiles_end_le (legal : blocks.Legal) (atMost : team ≤ ways)
    {tile : Tile} (member : tile ∈ deliveredTiles blocks n k ways team) :
    tile.jc + tile.nc0 ≤ highEdgeCut ways n blocks.NR team := by
  rcases List.mem_flatMap.mp member with ⟨tid, inTeam, inRange⟩
  have valid : tid < team := List.mem_range.mp inTeam
  exact (rangeTiles_bounds legal (valid.trans_le atMost) inRange).2.trans
    (cut_mono ways n blocks.NR valid)

/-- Threads that own no columns have no tiles. -/
theorem rangeTiles_idle {tid : Nat} (valid : tid < ways)
    (idle : highEdgeCut ways n blocks.NR tid = n) :
    rangeTiles blocks n k (threadRange blocks n ways tid) = [] := by
  rw [threadRange_eq valid, rangeTiles]
  have done : highEdgeCut ways n blocks.NR (tid + 1) ≤
      highEdgeCut ways n blocks.NR tid :=
    (cut_le blocks.NR n valid).trans_eq idle.symm
  rw [jcLoop_eq_nil _ _ _ _ done]
  rfl

theorem flatMap_range_idle {Item : Type} {program : Nat → List Item}
    (atMost : team ≤ ways)
    (idle : ∀ tid, team ≤ tid → tid < ways → program tid = []) :
    (List.range team).flatMap program =
      (List.range ways).flatMap program := by
  rcases Nat.exists_eq_add_of_le atMost with ⟨rest, rfl⟩
  rw [List.range_add, List.flatMap_append, List.flatMap_map]
  have none : (List.range rest).flatMap (fun tid => program (team + tid)) =
      [] := by
    rw [List.flatMap_eq_nil_iff]
    intro tid member
    exact idle _ (Nat.le_add_right _ _)
      (Nat.add_lt_add_left (List.mem_range.mp member) _)
  rw [none, List.append_nil]

theorem idle_of_covers (positive : 0 < blocks.NR) (atMost : team ≤ ways)
    (covers : Covers blocks.NR n ways team) {tid : Nat} (past : team ≤ tid)
    (valid : tid < ways) :
    rangeTiles blocks n k (threadRange blocks n ways tid) = [] := by
  apply rangeTiles_idle valid
  apply le_antisymm (cut_le blocks.NR n valid.le)
  calc
    n = highEdgeCut ways n blocks.NR team :=
      ((cut_eq_iff positive atMost).mpr covers).symm
    _ ≤ highEdgeCut ways n blocks.NR tid := cut_mono ways n blocks.NR past

/-- Covering threads have the tiles of the whole team. -/
theorem deliveredTiles_eq (positive : 0 < blocks.NR) (atMost : team ≤ ways)
    (covers : Covers blocks.NR n ways team) :
    deliveredTiles blocks n k ways team = teamTiles blocks n k ways :=
  flatMap_range_idle atMost fun _ past valid =>
    idle_of_covers positive atMost covers past valid

/-- An element whose slot no delivered tile fills. -/
structure Lost (legal : blocks.Legal) (n k ways team p j : Nat) : Prop where
  row : p < k
  column : j < n
  aligned : blocks.kFactor ∣ slotOf legal n k p j
  unfilled : ∀ tile, tile ∈ deliveredTiles blocks n k ways team →
    ¬ Region blocks tile (slotOf legal n k p j)

/-- Unless the delivered threads cover all columns, an element is lost. -/
theorem exists_lost (legal : blocks.Legal) (columns : 0 < n)
    (depth : 0 < k) (delivered : 0 < team) (atMost : team ≤ ways)
    (uncovered : ¬ Covers blocks.NR n ways team) :
    ∃ p j, Lost legal n k ways team p j := by
  have past : highEdgeCut ways n blocks.NR team < n :=
    lt_of_le_of_ne (cut_le blocks.NR n atMost) fun whole =>
      uncovered ((cut_eq_iff legal.widths.NR_pos atMost).mp whole)
  rcases exists_window legal (delivered.trans_le atMost) depth
      (Nat.sub_lt columns Nat.one_pos) with ⟨tile, member, window⟩
  have placed := teamTiles_placed legal member
  have start : highEdgeCut ways n blocks.NR team ≤ tile.jc := by
    rcases List.mem_flatMap.mp member with ⟨tid, inTeam, inRange⟩
    have valid := List.mem_range.mp inTeam
    have bounds := rangeTiles_bounds legal valid inRange
    by_cases early : tid < team
    · have stop := cut_mono ways n blocks.NR (show tid + 1 ≤ team from early)
      have upper := window.2.2
      omega
    · exact (cut_mono ways n blocks.NR (Nat.le_of_not_lt early)).trans
        bounds.1
  have width : 0 < tile.nc0 := by
    have lower := window.2.1
    have upper := window.2.2
    omega
  have slot := slotOf_eq_tile_offset placed placed.kc0_pos width
  have first : chunkStart tile.nc0 blocks.NR blocks.minNR 0 = 0 :=
    Nat.le_zero.mp (Widths.chunkStart_le blocks.NR blocks.minNR _ 0)
  simp only [first, Nat.zero_mul, Nat.sub_zero, dlpReorderElemOffset,
    Nat.zero_div, Nat.zero_mod, Nat.add_zero] at slot
  refine ⟨tile.pc, tile.jc, placed.row_lt, placed.column_lt, ?_, ?_⟩
  · rw [← slot]
    exact kFactor_dvd_off placed
  · intro other inDelivered inside
    have near := window_of_region
      (teamTiles_placed legal (deliveredTiles_mem atMost inDelivered))
      placed.row_lt placed.column_lt inside
    have stop := deliveredTiles_end_le legal atMost inDelivered
    exact absurd (near.2.2.trans_le (stop.trans start)) (lt_irrefl _)

end Tiles

/-! ## The int8 reorder -/

section Int8

variable {blksz : DlpGemmBlockSize} {n k rsB csB ways team : Nat}
    {numThreads : Int}

theorem deliveredImage_eq
    (delivered : Delivered (s8Blocks blksz) (s8Shape n k rsB csB) ways team)
    (unpacked : Bytes) (buffer : ReorderBuffer) :
    (deliveredReorderbS8s8s32o32 delivered unpacked buffer).image =
      packTiles (s8Blocks blksz) (s8Shape n k rsB csB) unpacked
        delivered.order buffer.image := by
  unfold deliveredReorderbS8s8s32o32
  rw [foldl_packTileS8]

/-- All schedules of a team write the same buffer. -/
theorem dlpReorderbS8s8s32o32_schedule (legal : S8Legal blksz)
    (left right : Schedule (s8Blocks blksz) (s8Shape n k rsB csB)
      (reorderThreads numThreads))
    (unpacked : Bytes) (buffer : ReorderBuffer) :
    dlpReorderbS8s8s32o32 left unpacked buffer =
      dlpReorderbS8s8s32o32 right unpacked buffer := by
  have image : (dlpReorderbS8s8s32o32 left unpacked buffer).image =
      (dlpReorderbS8s8s32o32 right unpacked buffer).image := by
    rw [image_eq_reference, image_eq_reference]
    exact reorderb_schedule_irrelevant legal.blocks
      (reorderThreads_pos numThreads) (reorderThreads_pos numThreads)
      Nat.one_pos left right unpacked buffer.image
  have words : (dlpReorderbS8s8s32o32 left unpacked buffer).words =
      (dlpReorderbS8s8s32o32 right unpacked buffer).words := by
    funext address
    rw [words_eq_addAll, words_eq_addAll, addAll_apply, addAll_apply,
      addedAt_perm ((left.perm.trans right.perm.symm).flatMap_right _)]
  exact congrArg₂ ReorderBuffer.mk image words

/-- The delivered threads write what the whole team writes. -/
def S8Survives (blksz : DlpGemmBlockSize) (n k rsB csB : Nat)
    (numThreads : Int) (team : Nat) : Prop :=
  ∀ (short : Delivered (s8Blocks blksz) (s8Shape n k rsB csB)
      (reorderThreads numThreads) team)
    (full : Schedule (s8Blocks blksz) (s8Shape n k rsB csB)
      (reorderThreads numThreads))
    (unpacked : Bytes) (buffer : ReorderBuffer),
    deliveredReorderbS8s8s32o32 short unpacked buffer =
      dlpReorderbS8s8s32o32 full unpacked buffer

theorem s8Survives_of_covers (legal : S8Legal blksz)
    (atMost : team ≤ reorderThreads numThreads)
    (covers : Covers blksz.NR n (reorderThreads numThreads) team) :
    S8Survives blksz n k rsB csB numThreads team := by
  intro short full unpacked buffer
  have tiles := @deliveredTiles_eq (s8Blocks blksz) n k _ _ legal.NR_pos
    atMost covers
  exact dlpReorderbS8s8s32o32_schedule legal
    ⟨short.order, short.perm.trans (.of_eq tiles)⟩ full unpacked buffer

theorem covers_of_s8Survives (legal : S8Legal blksz) (columns : 0 < n)
    (depth : 0 < k) (delivered : 0 < team)
    (atMost : team ≤ reorderThreads numThreads)
    (survives : S8Survives blksz n k rsB csB numThreads team) :
    Covers blksz.NR n (reorderThreads numThreads) team := by
  by_contra uncovered
  rcases exists_lost legal.blocks columns depth delivered atMost uncovered
    with ⟨p, j, lost⟩
  have same := congrArg
    (fun buffer => buffer.image (slotOf legal.blocks n k p j))
    (survives (.inOrder _ _ _ _) (.inOrder _ _ _) (fun _ => 0)
      ⟨fun _ => 1, fun _ => 0⟩)
  rw [image_at_slot legal _ _ _ lost.row lost.column, deliveredImage_eq,
    packTiles_frame legal.blocks Nat.one_pos] at same
  · change (1 : UInt8) = 0 at same
    exact absurd same (by decide)
  · intro tile member
    change ¬ Region _ tile (slotOf legal.blocks n k p j / 1)
    rw [Nat.div_one]
    exact lost.unfilled tile member

end Int8

/-! ## The bfloat16 reorder -/

section Bf16

variable {blksz : DlpGemmBlockSize} {n k rsB csB ways team : Nat}

/-- The delivered threads write what the whole team writes. -/
def Bf16Survives (blksz : DlpGemmBlockSize) (n k rsB csB ways team : Nat) :
    Prop :=
  ∀ (short : Delivered (bf16Blocks blksz) (bf16Shape n k rsB csB) ways team)
    (full : Delivered (bf16Blocks blksz) (bf16Shape n k rsB csB) ways ways)
    (unpacked packed : Bytes),
    dlpReorderbNr64Bf16bf16f32of32 short unpacked packed =
      dlpReorderbNr64Bf16bf16f32of32 full unpacked packed

theorem bf16Survives_of_covers (legal : (bf16Blocks blksz).Legal)
    (delivered : 0 < team) (atMost : team ≤ ways)
    (covers : Covers blksz.NR n ways team) :
    Bf16Survives blksz n k rsB csB ways team := by
  intro short full unpacked packed
  have requested := delivered.trans_le atMost
  have tiles := @deliveredTiles_eq (bf16Blocks blksz) n k _ _
    legal.widths.NR_pos atMost covers
  let asWhole : Schedule (bf16Blocks blksz) (bf16Shape n k rsB csB) ways :=
    ⟨short.order, short.perm.trans (.of_eq tiles)⟩
  have positive : 0 < (bf16Shape n k rsB csB).elemSz := Nat.two_pos
  exact reorderb_schedule_irrelevant legal requested requested positive
    asWhole ⟨full.order, full.perm⟩ unpacked packed

theorem covers_of_bf16Survives (legal : (bf16Blocks blksz).Legal)
    (columns : 0 < n) (depth : 0 < k) (delivered : 0 < team)
    (atMost : team ≤ ways)
    (survives : Bf16Survives blksz n k rsB csB ways team) :
    Covers blksz.NR n ways team := by
  by_contra uncovered
  rcases exists_lost legal columns depth delivered atMost uncovered
    with ⟨p, j, lost⟩
  have half : slotOf legal n k p j * 2 / 2 = slotOf legal n k p j :=
    Nat.mul_div_cancel _ Nat.two_pos
  have same := congrFun (survives (.inOrder _ _ _ _) (.inOrder _ _ _ _)
    (fun _ => 0) fun _ => 1) (slotOf legal n k p j * 2)
  have stored := reorderb_at_slot legal (delivered.trans_le atMost)
    Nat.two_pos (.inOrder (bf16Blocks blksz) (bf16Shape n k rsB csB) ways)
    (fun _ => 0) (fun _ => 1) lost.row lost.column half
  have kept : dlpReorderbNr64Bf16bf16f32of32
      (.inOrder (bf16Blocks blksz) (bf16Shape n k rsB csB) ways team)
      (fun _ => 0) (fun _ => 1) (slotOf legal n k p j * 2) = 1 := by
    apply packTiles_frame legal Nat.two_pos
    intro tile member
    change ¬ Region _ tile (slotOf legal n k p j * 2 / 2)
    rw [half]
    exact lost.unfilled tile member
  rw [kept] at same
  exact absurd (same.trans stored) (by decide)

end Bf16

/-! ## The fused int4 reorder -/

section Int4

variable {table : DlpGemmBlockSize} {groupSize n k rsB csB ways team : Nat}
    {numThreads : Int}

/-- The halves of the image's cells are the bytes of the weights. -/
theorem lt_compactWeightBytes {a : Nat}
    (inImage : 2 * a < roundUp n 16 * roundUp k 4) :
    a < compactWeightBytes n k := by
  have size : compactWeightBytes n k = roundUp k 4 * roundUp n 16 / 2 := rfl
  rcases dvd_roundUp k 4 with ⟨quads, whole⟩
  rw [whole, Nat.mul_left_comm, Nat.mul_comm (roundUp n 16)] at inImage
  rw [size, whole, Nat.mul_assoc]
  omega

/-- A strip of a delivered thread lies inside one of its tiles. -/
theorem exists_tile_of_strip (legal : GroupLegal table groupSize k)
    (atMost : team ≤ ways) {op : StripOp}
    (member : op ∈ deliveredOps table groupSize n k ways team) :
    OfStrip legal n op.workId op ∧
      ∀ strip, op.action = .compress strip →
        ∃ tile, tile ∈ deliveredTiles
            (s8Blocks (reorderBlksz table groupSize k)) n k ways team ∧
          ∀ p j, InWindow strip p j → InWindow tile p j := by
  rcases List.mem_flatMap.mp member with ⟨tid, inTeam, inThread⟩
  have valid := (List.mem_range.mp inTeam).trans_le atMost
  have ofStrip := threadOps_ofStrip legal valid inThread
  refine ⟨ofStrip.1.symm ▸ ofStrip, ?_⟩
  intro strip compress
  rcases List.mem_flatMap.mp inThread with ⟨tile, inRange, inTile⟩
  rcases List.mem_flatMap.mp inTile with ⟨own, inStrips, inOps⟩
  have same : own = strip := by
    rcases mem_stripOps_iff.mp inOps with rfl | ⟨_, _, rfl⟩ | rfl
    · cases compress
    · cases compress
    · exact StripAction.compress.inj compress
  subst same
  refine ⟨tile, List.mem_flatMap.mpr ⟨tid, inTeam, inRange⟩, ?_⟩
  have columns := (stripTiles_chain legal.blksz.blocks tile).bounds
    (List.mem_map_of_mem inStrips)
  rcases List.mem_map.mp inStrips with ⟨piece, -, rfl⟩
  rintro p j ⟨rows, left, right⟩
  exact ⟨rows, columns.1.trans left, right.trans_le columns.2.2⟩

/-- A byte of the weights that no action compresses keeps its value. -/
theorem fused_frame (legal : GroupLegal table groupSize k)
    (unpacked : Bytes) {order : List StripOp} {a : Nat}
    (ofStrip : ∀ op, op ∈ order → OfStrip legal n op.workId op)
    (kept : ∀ op, op ∈ order →
      ¬ Compresses (reorderBlksz table groupSize k) op a)
    (memory : FusedMemory) :
    (order.foldl
        (fun current op =>
          runStripOp (reorderBlksz table groupSize k) n k rsB csB unpacked op
            current) memory).weights a = memory.weights a := by
  induction order generalizing memory with
  | nil => rfl
  | cons op rest ih =>
      rw [List.foldl_cons, ih
        (fun other inRest => ofStrip other (List.mem_cons_of_mem _ inRest))
        (fun other inRest => kept other (List.mem_cons_of_mem _ inRest))]
      have mine := ofStrip op List.mem_cons_self
      have outside := kept op List.mem_cons_self
      rcases op with ⟨workId, action⟩
      cases action with
      | clear strip => rfl
      | pack call => rfl
      | compress strip =>
          have held : Held (reorderBlksz table groupSize k)
              (fun y => memory.pool
                (workId * stripStride (reorderBlksz table groupSize k) +
                  (y - strip.off))) memory.pool workId strip := by
            intro y _
            dsimp only
            rw [Nat.add_sub_cancel_left]
          exact (compress_apply (mine.compressed rfl) held memory.weights
            a).2 fun inside => outside ⟨strip, rfl, inside⟩

/-- The nibbles of B have a packed image. -/
theorem exists_packedImage (legal : GroupLegal table groupSize k)
    (n rsB csB : Nat) (unpacked : Bytes) :
    ∃ image, PackedImage legal.blksz.blocks n k
      (fun p j => unpacked (p * rsB + j * csB)) image := by
  have stored : ∀ tile, tile ∈ teamTiles
      (s8Blocks (reorderBlksz table groupSize k)) n k 1 →
      Stored legal.blksz.blocks n k tile :=
    fun tile member => stored_of_placed
      (teamTiles_placed legal.blksz.blocks member)
  refine ⟨packTiles (s8Blocks (reorderBlksz table groupSize k))
    (s8Shape n k rsB csB) unpacked
    (teamTiles (s8Blocks (reorderBlksz table groupSize k)) n k 1)
    (fun _ => 0), ?_, ?_⟩
  · intro p j row column
    exact s8Tiles_at_slot legal.blksz stored unpacked _ row column
      (exists_window legal.blksz.blocks Nat.one_pos row column)
  · intro slot below padding
    exact s8Tiles_padding legal.blksz stored unpacked _
      (exists_region legal.blksz.blocks Nat.one_pos below) padding

/-- All interleavings of a team write the same buffer. -/
theorem fused_schedule (legal : GroupLegal table groupSize k)
    (left right : Interleaved StripOp.workId
      (teamOps table groupSize n k (reorderThreads numThreads)))
    (b pool : Bytes) (buffer : ReorderBuffer) :
    dlpReorderbNr64S8s4s32o32 rsB csB left b pool buffer =
      dlpReorderbNr64S8s4s32o32 rsB csB right b pool buffer := by
  have weights : (dlpReorderbNr64S8s4s32o32 rsB csB left b pool buffer).image =
      (dlpReorderbNr64S8s4s32o32 rsB csB right b pool buffer).image := by
    funext a
    by_cases below : a < compactWeightBytes n k
    · rcases exists_packedImage legal n (packerRs rsB csB) csB (nibbleAt b)
        with ⟨image, packed⟩
      rw [fused_weights legal left packed pool buffer below,
        fused_weights legal right packed pool buffer below]
    · have frame (schedule : Interleaved StripOp.workId
          (teamOps table groupSize n k (reorderThreads numThreads))) :
          (dlpReorderbNr64S8s4s32o32 rsB csB schedule b pool buffer).image a =
            buffer.image a := by
        have own := fun op (member : op ∈ schedule.order) =>
          exists_tile_of_strip legal le_rfl
            (schedule.perm.mem_iff.mp member)
        apply fused_frame legal (nibbleAt b)
          (fun op member => (own op member).1)
        rintro op member ⟨strip, action, inside⟩
        have placed := ((own op member).1.compressed action).placed
        have inImage := region_lt placed inside
        exact below (lt_compactWeightBytes inImage)
      rw [frame left, frame right]
  have words : (dlpReorderbNr64S8s4s32o32 rsB csB left b pool buffer).words =
      (dlpReorderbNr64S8s4s32o32 rsB csB right b pool buffer).words := by
    funext address
    unfold dlpReorderbNr64S8s4s32o32
    dsimp only
    rw [fusedWords_eq_addAll, fusedWords_eq_addAll, addAll_apply,
      addAll_apply,
      addedAt_perm ((left.perm.trans right.perm.symm).flatMap_right _)]
  exact congrArg₂ ReorderBuffer.mk weights words

/-- The delivered threads write what the whole team writes. -/
def S4Survives (table : DlpGemmBlockSize) (groupSize n k rsB csB : Nat)
    (numThreads : Int) (team : Nat) : Prop :=
  ∀ (short : Interleaved StripOp.workId
      (deliveredOps table groupSize n k (reorderThreads numThreads) team))
    (full : Interleaved StripOp.workId
      (teamOps table groupSize n k (reorderThreads numThreads)))
    (b pool : Bytes) (buffer : ReorderBuffer),
    deliveredReorderbNr64S8s4s32o32 rsB csB short b pool buffer =
      dlpReorderbNr64S8s4s32o32 rsB csB full b pool buffer

theorem s4Survives_of_covers (legal : GroupLegal table groupSize k)
    (atMost : team ≤ reorderThreads numThreads)
    (covers : Covers table.NR n (reorderThreads numThreads) team) :
    S4Survives table groupSize n k rsB csB numThreads team := by
  intro short full b pool buffer
  have ops : deliveredOps table groupSize n k (reorderThreads numThreads)
      team = teamOps table groupSize n k (reorderThreads numThreads) := by
    apply flatMap_range_idle atMost
    intro tid past valid
    rw [threadOps_eq, threadStrips,
      idle_of_covers legal.table.NR_pos atMost covers past valid]
    rfl
  exact fused_schedule legal
    ⟨short.order, fun tid => (short.inOrder tid).trans
      (congrArg (ownOps StripOp.workId tid) ops)⟩ full b pool buffer

theorem covers_of_s4Survives (legal : GroupLegal table groupSize k)
    (columns : 0 < n) (depth : 0 < k) (delivered : 0 < team)
    (atMost : team ≤ reorderThreads numThreads)
    (survives : S4Survives table groupSize n k rsB csB numThreads team) :
    Covers table.NR n (reorderThreads numThreads) team := by
  by_contra uncovered
  rcases exists_lost legal.blksz.blocks columns depth delivered atMost
    uncovered with ⟨p, j, lost⟩
  have even : 2 ∣ slotOf legal.blksz.blocks n k p j :=
    (show 2 ∣ 4 by decide).trans lost.aligned
  rcases even with ⟨a, atSlot⟩
  have below : a < compactWeightBytes n k := by
    have inImage := slotOf_lt legal.blksz.blocks lost.row lost.column
    rw [atSlot] at inImage
    exact lt_compactWeightBytes inImage
  have same := congrArg (fun buffer => buffer.image a)
    (survives (.sequential _ _) (.sequential _ _) (fun _ => 0) (fun _ => 0)
      ⟨fun _ => 1, fun _ => 0⟩)
  have packed : PackedImage legal.blksz.blocks n k
      (fun p j => nibbleAt (fun _ => 0) (p * packerRs rsB csB + j * csB))
      (fun _ => 0) := by
    refine ⟨?_, fun _ _ _ => rfl⟩
    intro p j _ _
    exact (nibbleAt_zero _).symm
  have kept : (deliveredReorderbNr64S8s4s32o32 rsB csB
      (.sequential StripOp.workId (deliveredOps table groupSize n k
        (reorderThreads numThreads) team)) (fun _ => 0) (fun _ => 0)
      ⟨fun _ => 1, fun _ => 0⟩).image a = 1 := by
    apply fused_frame legal (nibbleAt fun _ => 0)
      (fun op member => (exists_tile_of_strip legal atMost member).1)
    rintro op member ⟨strip, action, inside⟩
    rcases exists_tile_of_strip legal atMost member with ⟨ofStrip, within⟩
    rcases within strip action with ⟨tile, inTiles, wider⟩
    have placed := (ofStrip.compressed action).placed
    rw [← atSlot] at inside
    have window := wider p j
      (window_of_region placed lost.row lost.column inside)
    exact lost.unfilled tile inTiles (region_slotOf
      (stored_of_placed (teamTiles_placed legal.blksz.blocks
        (deliveredTiles_mem atMost inTiles))) window)
  have stored := fused_weights legal (.sequential StripOp.workId
    (teamOps table groupSize n k (reorderThreads numThreads))) packed
    (fun _ => 0) ⟨fun _ => 1, fun _ => 0⟩ below
  exact absurd (kept.symm.trans (same.trans stored)) (by decide)

end Int4

/-! ## Which teams are large enough -/

/--
A native reorder writes the same buffer with the delivered threads as with
the requested ones, for every matrix and every order of the tiles, exactly if
the delivered threads cover all columns.
-/
theorem shortTeam_survives_iff {n k team : Nat} {numThreads : Int}
    (rsB csB : Nat) (columns : 0 < n) (depth : 0 < k) (delivered : 0 < team)
    (atMost : team ≤ reorderThreads numThreads) :
    (∀ blksz, S8Legal blksz →
      (S8Survives blksz n k rsB csB numThreads team ↔
        Covers blksz.NR n (reorderThreads numThreads) team)) ∧
    (∀ blksz, (bf16Blocks blksz).Legal →
      (Bf16Survives blksz n k rsB csB (reorderThreads numThreads) team ↔
        Covers blksz.NR n (reorderThreads numThreads) team)) ∧
    (∀ table groupSize, GroupLegal table groupSize k →
      (S4Survives table groupSize n k rsB csB numThreads team ↔
        Covers table.NR n (reorderThreads numThreads) team)) := by
  refine ⟨fun blksz legal => ?_, fun blksz legal => ?_,
    fun table groupSize legal => ?_⟩
  · exact ⟨covers_of_s8Survives legal columns depth delivered atMost,
      s8Survives_of_covers legal atMost⟩
  · exact ⟨covers_of_bf16Survives legal columns depth delivered atMost,
      bf16Survives_of_covers legal delivered atMost⟩
  · exact ⟨covers_of_s4Survives legal columns depth delivered atMost,
      s4Survives_of_covers legal atMost⟩

/-- One of two requested threads: 128 columns are too many, 64 are not. -/
theorem shortTeam_survives_iff_half :
    Covers 64 64 (reorderThreads 2) 1 ∧
      S8Survives (dlpGemmBlkszMapZen4 .s8s8s32os32) 64 4 64 1 2 1 :=
  ⟨by decide,
    ((shortTeam_survives_iff 64 1 (by decide) (by decide) (by decide)
      (by decide)).1 (dlpGemmBlkszMapZen4 .s8s8s32os32)
      (by constructor <;> decide)).mpr (by decide)⟩

/-- Two threads are requested for 128 columns and one is delivered: columns
64 to 127 stay unpacked in each of the three reorders. -/
theorem shortTeam_loses_columns :
    ¬ S8Survives (dlpGemmBlkszMapZen4 .s8s8s32os32) 128 4 128 1 2 1 ∧
    ¬ Bf16Survives (dlpGemmBlkszMapZen4 .bf16bf16f32of32) 128 4 128 1
      (reorderThreads 2) 1 ∧
    ¬ S4Survives (dlpGemmBlkszMapZen4 .s8s8s32os32) 4 128 4 128 1 2 1 := by
  have uncovered : ¬ Covers 64 128 (reorderThreads 2) 1 := by decide
  have legal : S8Legal (dlpGemmBlkszMapZen4 .s8s8s32os32) := by
    constructor <;> decide
  have bf16Legal :
      (bf16Blocks (dlpGemmBlkszMapZen4 .bf16bf16f32of32)).Legal := by
    constructor <;> try decide
    constructor <;> decide
  have groupLegal :
      GroupLegal (dlpGemmBlkszMapZen4 .s8s8s32os32) 4 4 :=
    ⟨legal, by decide, by decide, by decide⟩
  refine ⟨fun survives => uncovered ?_, fun survives => uncovered ?_,
    fun survives => uncovered ?_⟩
  · exact covers_of_s8Survives legal (by decide) (by decide) (by decide)
      (by decide) survives
  · exact covers_of_bf16Survives bf16Legal (by decide) (by decide)
      (by decide) (by decide) survives
  · exact covers_of_s4Survives groupLegal (by decide) (by decide)
      (by decide) (by decide) survives

end AoclDlp.Quant.ShortTeam
