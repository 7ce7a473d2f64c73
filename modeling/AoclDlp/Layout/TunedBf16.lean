import AoclDlp.Quant.ShortTeam

/-!
# The tuned BF16 reorder and the reference

`dlp_gemm_reorder_bf16.c` walks the columns like the reference, with panel and
row offsets computed by hand: rows are padded to pairs through their lowest
bit.  The packer follows the reference chunk rule at the width of the context.
The vector unpacker is fixed to pieces of 64 columns, a ladder of 48, 32 and 16
and a masked tail, and serves contexts of that width only; every other width
is handed to the reference.

Both tuned walks split the columns among the threads they ask for; the
reference splits them among the threads it gets.
-/

namespace AoclDlp.Layout.TunedBf16

open AoclDlp.Config.BlockSize
open AoclDlp.Foundations.Memory
open AoclDlp.Foundations.Rounding
open AoclDlp.Foundations.Span
open AoclDlp.Layout.Bf16Fallback
open AoclDlp.Layout.Chunk
open AoclDlp.Layout.GroupTiles
open AoclDlp.Layout.Panel
open AoclDlp.Layout.ReorderRef
open AoclDlp.Layout.TeamTiles
open AoclDlp.Quant.ShortTeam
open AoclDlp.Threading.TaskRange

/-! ## The tuned walk -/

/-- `k_updated` and `kc0_updated`: the rows with their lowest bit added. -/
def updatedRows (rows : Nat) : Nat :=
  rows + (rows &&& 1)

/-- The tile of a `jc` step at a `pc` step, with the offset into
`b_reorder`. -/
def tunedTile (k : Nat) (step : JcStep) (row : Piece) : Tile where
  jc := step.jc
  nc0 := step.nc0
  pc := row.start
  kc0 := row.width
  off :=
    step.jcCurLoop * updatedRows k + step.nSubUpdated * row.start +
      step.jcCurLoopRem * updatedRows row.width

/-- The tiles of one thread of the tuned walk. -/
def threadTiles (blksz : DlpGemmBlockSize) (n k ways tid : Nat) :
    List Tile :=
  let range := dlpThreadTaskRange ⟨0, ways, tid⟩ n blksz.NR false
  (jcLoop n blksz.NC 16 range.2 range.2 range.1).flatMap fun step =>
    (pcLoop k blksz.KC k 0).map (tunedTile k step)

/-- The tiles of the delivered threads; the columns are split `ways` ways. -/
def tunedTiles (blksz : DlpGemmBlockSize) (n k ways team : Nat) :
    List Tile :=
  (List.range team).flatMap (threadTiles blksz n k ways)

/-- An order in which the delivered threads execute their tiles. -/
structure TunedOrder (blksz : DlpGemmBlockSize) (n k ways team : Nat) where
  order : List Tile
  perm : order.Perm (tunedTiles blksz n k ways team)

/-- The delivered threads one after the other. -/
def TunedOrder.inOrder (blksz : DlpGemmBlockSize) (n k ways team : Nat) :
    TunedOrder blksz n k ways team :=
  ⟨tunedTiles blksz n k ways team, .refl _⟩

/-- The pack kernel at one tile. -/
def packTuned (blksz : DlpGemmBlockSize) (rsB csB : Nat) (unpacked : Bytes)
    (tile : Tile) (packed : Bytes) : Bytes :=
  dlpReorderRefPackb (tile.off * 2)
    ((rsB * tile.pc + tile.jc * csB) * 2) 2 2 tile.nc0 tile.kc0 blksz.NR
    dlpGetPackbBf16bf16f32of32MinNR rsB csB unpacked packed

/-- `dlp_reorderb_nr64_bf16bf16f32of32`. -/
def tunedReorderb {blksz : DlpGemmBlockSize} {n k ways team : Nat}
    (rsB csB : Nat) (walk : TunedOrder blksz n k ways team)
    (unpacked packed : Bytes) : Bytes :=
  walk.order.foldl
    (fun current tile => packTuned blksz rsB csB unpacked tile current) packed

/-! ## The vector unpacker -/

/-- `KC_updated` of the unpacker. -/
def kcUpdated (kc0 : Nat) : Nat :=
  let kPartialPieces := kc0 % 2
  if 0 < kPartialPieces then kc0 + (2 - kPartialPieces) else kc0

/-- The loop over the full pieces. -/
def fullPieces (limit kc0Updated : Nat) :
    Nat → Nat → List DlpReorderChunk
  | 0, _ => []
  | fuel + 1, jc =>
      if jc < limit then
        ⟨jc, 64, 64, jc * kc0Updated⟩ ::
          fullPieces limit kc0Updated fuel (jc + 64)
      else []

/-- The ladder: the widest fringe kernel that fits. -/
def fringeWidth (nPartialPieces : Nat) : Nat :=
  if nPartialPieces / 48 = 1 then 48
  else if nPartialPieces / 32 = 1 then 32
  else if nPartialPieces / 16 = 1 then 16
  else 0

/-- The fringe kernel and the masked tail behind the full pieces. -/
def partialPieces (limit nPartialPieces kc0Updated : Nat) :
    List DlpReorderChunk :=
  let fringe := fringeWidth nPartialPieces
  (if 0 < fringe then [⟨limit, fringe, fringe, limit * kc0Updated⟩]
    else []) ++
  (if 0 < nPartialPieces % 16 then
      [⟨limit + fringe, nPartialPieces % 16, 16,
        limit * kc0Updated + fringe * kc0Updated⟩]
    else [])

/-- The pieces into which the unpacker cuts its width. -/
def unpackPieces (nc0 kc0Updated : Nat) : List DlpReorderChunk :=
  let limit := nc0 / 64 * 64
  fullPieces limit kc0Updated nc0 0 ++
    (if 0 < nc0 % 64 then partialPieces limit (nc0 % 64) kc0Updated else [])

/-- The element of the matrix that the row-major or the column-major unpacker
stores to. -/
def unpackPosition (rsB csB kr col : Nat) : Nat :=
  if csB = 1 then rsB * kr + col else csB * col + kr

/-- `dlp_unpackb_nr64_bf16bf16f32of32`; the two pointers are byte offsets. -/
def dlpUnpackbNr64Bf16bf16f32of32 (b unpackBBuffer nc0 kc0 rsB csB : Nat)
    (packed unpacked : Bytes) : Bytes :=
  (unpackPieces nc0 (kcUpdated kc0)).foldl (fun out piece =>
    (List.range kc0).foldl (fun out kr =>
      (List.range piece.cols).foldl (fun out i =>
        let dst := unpackPosition rsB csB kr (piece.colStart + i)
        let src := piece.offset + dlpReorderElemOffset kr i piece.slot 2
        dlpReorderCopyElem (unpackBBuffer + dst * 2) (b + src * 2) 2 packed
          out) out) out) unpacked

/-- The unpacker at one tile. -/
def unpackTuned (rsB csB : Nat) (packed : Bytes) (tile : Tile)
    (unpacked : Bytes) : Bytes :=
  dlpUnpackbNr64Bf16bf16f32of32 (tile.off * 2)
    ((rsB * tile.pc + tile.jc * csB) * 2) tile.nc0 tile.kc0 rsB csB packed
    unpacked

/-- The walks of an un-reorder call: the tuned one, and the one of the
reference under the same team. -/
structure UnreorderWalk (blksz : DlpGemmBlockSize) (n k rsB csB ways
    team : Nat) where
  tuned : TunedOrder blksz n k ways team
  reference : Schedule (bf16Blocks blksz) (bf16Shape n k rsB csB) team

/-- `dlp_unreorderb_nr64_bf16bf16f32of32`. -/
def tunedUnreorderb {blksz : DlpGemmBlockSize} {n k rsB csB ways team : Nat}
    (walk : UnreorderWalk blksz n k rsB csB ways team)
    (packed unpacked : Bytes) : Bytes :=
  if blksz.NR ≠ 64 then
    dlpReorderRefUnreorderb walk.reference packed unpacked
  else
    walk.tuned.order.foldl
      (fun current tile => unpackTuned rsB csB packed tile current) unpacked

/-! ## What interchangeable means -/

/-- A row-major or a column-major matrix. -/
def Strided (n k rsB csB : Nat) : Prop :=
  (csB = 1 ∧ n ≤ rsB) ∨ (rsB = 1 ∧ k ≤ csB)

/-- The output holds the window of the matrix. -/
def Restores (n k rsB csB : Nat) (matrix out : Bytes) : Prop :=
  ∀ p j byte, p < k → j < n → byte < 2 →
    out ((p * rsB + j * csB) * 2 + byte) =
      matrix ((p * rsB + j * csB) * 2 + byte)

/--
The tuned reorder writes the buffer of the reference, the tuned un-reorder
returns the matrix of the reference, and each consumes what the other
produced.  The reorder asks for `ways` threads and gets `team`; the un-reorder
asks for `unWays` and gets `unTeam`; the reference runs under any team.
-/
structure Interchangeable (blksz : DlpGemmBlockSize)
    (n k rsB csB ways team unWays unTeam : Nat) : Prop where
  reorder : ∀ (walk : TunedOrder blksz n k ways team) (refTeam : Nat),
    0 < refTeam →
    ∀ (schedule : Schedule (bf16Blocks blksz) (bf16Shape n k rsB csB)
        refTeam) (matrix packed : Bytes),
      tunedReorderb rsB csB walk matrix packed =
        dlpReorderRefReorderb schedule matrix packed
  unreorder : ∀ (walk : UnreorderWalk blksz n k rsB csB unWays unTeam)
      (refTeam : Nat), 0 < refTeam →
    ∀ (schedule : Schedule (bf16Blocks blksz) (bf16Shape n k rsB csB)
        refTeam) (packed out : Bytes),
      tunedUnreorderb walk packed out =
        dlpReorderRefUnreorderb schedule packed out
  exchange : ∀ (pack : TunedOrder blksz n k ways team)
      (unpack : UnreorderWalk blksz n k rsB csB unWays unTeam)
      (refTeam : Nat), 0 < refTeam →
    ∀ (schedule : Schedule (bf16Blocks blksz) (bf16Shape n k rsB csB)
        refTeam) (matrix packed out : Bytes),
      Restores n k rsB csB matrix
          (dlpReorderRefUnreorderb schedule
            (tunedReorderb rsB csB pack matrix packed) out) ∧
        Restores n k rsB csB matrix
          (tunedUnreorderb unpack
            (dlpReorderRefReorderb schedule matrix packed) out)

/-! ## The hand-computed offsets -/

theorem updatedRows_eq (rows : Nat) :
    updatedRows rows = dlpReorderRoundUp rows 2 := by
  unfold updatedRows dlpReorderRoundUp
  rw [Nat.and_one_is_mod, if_neg (by decide)]
  omega

theorem kcUpdated_eq (rows : Nat) :
    kcUpdated rows = dlpReorderRoundUp rows 2 := by
  unfold kcUpdated dlpReorderRoundUp
  rw [if_neg (two_ne_zero : (2 : Nat) ≠ 0)]
  dsimp only
  split_ifs <;> omega

theorem tunedTile_eq (blksz : DlpGemmBlockSize) (k : Nat) :
    tunedTile k = tileAt (bf16Blocks blksz) k := by
  funext step row
  unfold tunedTile tileAt
  rw [updatedRows_eq, updatedRows_eq]
  rfl

/-- The tuned walk visits the tiles of the reference walk. -/
theorem tunedTiles_eq (blksz : DlpGemmBlockSize) (n k ways team : Nat) :
    tunedTiles blksz n k ways team =
      deliveredTiles (bf16Blocks blksz) n k ways team := by
  unfold tunedTiles deliveredTiles threadTiles rangeTiles
  rw [tunedTile_eq blksz k]
  rfl

/-! ## The pieces of the vector unpacker -/

theorem fringeWidth_eq {width : Nat} (narrow : width < 64) :
    fringeWidth width = width / 16 * 16 := by
  unfold fringeWidth
  split_ifs <;> omega

theorem fullPieces_of_done {limit kc0Updated jc : Nat} (fuel : Nat)
    (done : limit ≤ jc) : fullPieces limit kc0Updated fuel jc = [] := by
  cases fuel with
  | zero => rfl
  | succ fuel =>
      unfold fullPieces
      exact if_neg (Nat.not_lt.mpr done)

/-- The partial pieces are those of a narrow strip. -/
theorem partialPieces_eq {width : Nat} (narrow : width < 64)
    (limit kc0Updated : Nat) :
    partialPieces limit width kc0Updated =
      stripPieces 64 kc0Updated width limit := by
  unfold partialPieces stripPieces
  rw [if_pos narrow, fringeWidth_eq narrow]

/-- From a multiple of 64 on, the pieces are the strips of that width. -/
theorem pieces_eq_strips {nc0 kc0Updated : Nat} (fuel : Nat) {jc : Nat}
    (aligned : 64 ∣ jc) (inside : jc ≤ nc0) (enough : nc0 ≤ jc + fuel) :
    fullPieces (nc0 / 64 * 64) kc0Updated fuel jc ++
        (if 0 < nc0 % 64 then
          partialPieces (nc0 / 64 * 64) (nc0 % 64) kc0Updated else []) =
      stripLoop nc0 64 kc0Updated fuel jc := by
  have small := Nat.mod_lt nc0 (by decide : 0 < 64)
  induction fuel generalizing jc with
  | zero =>
      rw [if_neg (by omega)]
      rfl
  | succ fuel ih =>
      by_cases full : jc + 64 ≤ nc0
      · have rest := ih (Nat.dvd_add aligned (dvd_refl 64)) full (by omega)
        rw [fullPieces, if_pos (show jc < nc0 / 64 * 64 by omega),
          stripLoop, if_pos (show jc < nc0 by omega),
          min_eq_right (show 64 ≤ nc0 - jc by omega), stripPieces,
          if_neg (lt_irrefl 64), ← rest]
        rfl
      · rw [fullPieces_of_done _ (show nc0 / 64 * 64 ≤ jc by omega),
          List.nil_append, stripLoop]
        by_cases below : jc < nc0
        · have limit : nc0 / 64 * 64 = jc := by omega
          have width : nc0 - jc = nc0 % 64 := by omega
          rw [if_pos below, if_pos (by omega), limit, partialPieces_eq small,
            width, min_eq_left small.le, stripLoop_of_done fuel (by omega),
            List.append_nil]
        · rw [if_neg below, if_neg (by omega)]

/-- The unpacker cuts a panel into the chunks of the reference at its own
width. -/
theorem unpackPieces_eq (nc0 kc0Updated : Nat) :
    unpackPieces nc0 kc0Updated = panelChunks nc0 64 16 kc0Updated := by
  have widths : Widths 64 16 := by constructor <;> decide
  have pieces := @pieces_eq_strips nc0 kc0Updated nc0 0 (dvd_zero 64)
    (Nat.zero_le nc0) (Nat.le_add_left nc0 0)
  rw [← strips_eq_panelChunks widths, ← pieces]
  rfl

theorem unpackPosition_eq {n k rsB csB : Nat} (rows : 2 ≤ k)
    (strided : Strided n k rsB csB) (kr col : Nat) :
    unpackPosition rsB csB kr col = kr * rsB + col * csB := by
  unfold unpackPosition
  rcases strided with ⟨rfl, -⟩ | ⟨rfl, wide⟩
  · rw [if_pos rfl, Nat.mul_one, Nat.mul_comm]
  · rw [if_neg (by omega), Nat.mul_one, Nat.mul_comm csB, Nat.add_comm]

/-- At its own width the unpacker inverts the reference packer. -/
theorem unpackTuned_eq {blksz : DlpGemmBlockSize} {n k rsB csB : Nat}
    (native : blksz.NR = 64) (rows : 2 ≤ k)
    (strided : Strided n k rsB csB) (packed : Bytes) (tile : Tile)
    (unpacked : Bytes) :
    unpackTuned rsB csB packed tile unpacked =
      unpackTile (bf16Blocks blksz) (bf16Shape n k rsB csB) packed tile
        unpacked := by
  unfold unpackTuned dlpUnpackbNr64Bf16bf16f32of32 unpackTile
    dlpReorderRefUnpackb
  simp only [unpackPieces_eq, kcUpdated_eq, unpackPosition_eq rows strided,
    bf16Blocks, bf16Shape, native, dlpGetPackbBf16bf16f32of32MinNR]

/-! ## The walks against the reference -/

theorem Strided.injective {n k rsB csB : Nat}
    (strided : Strided n k rsB csB) :
    (bf16Shape n k rsB csB).InjectiveStrides := by
  intro p j p2 j2 row column row2 column2 same
  change p < k at row
  change j < n at column
  change p2 < k at row2
  change j2 < n at column2
  change p * rsB + j * csB = p2 * rsB + j2 * csB at same
  rcases strided with ⟨rfl, wide⟩ | ⟨rfl, tall⟩
  · rw [Nat.mul_one, Nat.mul_one] at same
    exact (mul_add_eq_iff (column.trans_le wide)
      (column2.trans_le wide)).mp same
  · rw [Nat.mul_one, Nat.mul_one, Nat.add_comm, Nat.add_comm p2] at same
    exact ((mul_add_eq_iff (row.trans_le tall)
      (row2.trans_le tall)).mp same).symm

section Walks

variable {blksz : DlpGemmBlockSize} {n k rsB csB ways team : Nat}

/-- The tuned walk as a walk with the offsets of the reference. -/
def TunedOrder.delivered (rsB csB : Nat)
    (walk : TunedOrder blksz n k ways team) :
    Delivered (bf16Blocks blksz) (bf16Shape n k rsB csB) ways team :=
  ⟨walk.order, walk.perm.trans (.of_eq (tunedTiles_eq blksz n k ways team))⟩

/-- The tuned reorder, with the offsets of the reference. -/
theorem tunedReorderb_eq (walk : TunedOrder blksz n k ways team)
    (unpacked packed : Bytes) :
    tunedReorderb rsB csB walk unpacked packed =
      dlpReorderbNr64Bf16bf16f32of32 (walk.delivered rsB csB) unpacked
        packed :=
  rfl

/-- Covering threads run a schedule of the whole team. -/
def TunedOrder.whole (rsB csB : Nat) (positive : 0 < blksz.NR)
    (atMost : team ≤ ways) (covers : Covers blksz.NR n ways team)
    (walk : TunedOrder blksz n k ways team) :
    Schedule (bf16Blocks blksz) (bf16Shape n k rsB csB) ways :=
  ⟨walk.order, (walk.delivered rsB csB).perm.trans
    (.of_eq (deliveredTiles_eq positive atMost covers))⟩

theorem elemSz_pos : 0 < (bf16Shape n k rsB csB).elemSz :=
  Nat.two_pos

/-- A covering tuned reorder writes the buffer of the reference. -/
theorem tunedReorderb_reference (legal : (bf16Blocks blksz).Legal)
    (delivered : 0 < team) (atMost : team ≤ ways)
    (covers : Covers blksz.NR n ways team)
    (walk : TunedOrder blksz n k ways team) {refTeam : Nat}
    (refDelivered : 0 < refTeam)
    (schedule : Schedule (bf16Blocks blksz) (bf16Shape n k rsB csB) refTeam)
    (matrix packed : Bytes) :
    tunedReorderb rsB csB walk matrix packed =
      dlpReorderRefReorderb schedule matrix packed :=
  reorderb_schedule_irrelevant legal (delivered.trans_le atMost) refDelivered
    elemSz_pos (walk.whole rsB csB legal.widths.NR_pos atMost covers) schedule
    matrix packed

/-- A reorder that equals the reference packs every column. -/
theorem covers_of_reorder (legal : (bf16Blocks blksz).Legal)
    (columns : 0 < n) (depth : 0 < k) (delivered : 0 < team)
    (atMost : team ≤ ways)
    (equal : ∀ (walk : TunedOrder blksz n k ways team)
      (schedule : Schedule (bf16Blocks blksz) (bf16Shape n k rsB csB) 1)
      (matrix packed : Bytes),
        tunedReorderb rsB csB walk matrix packed =
          dlpReorderRefReorderb schedule matrix packed) :
    Covers blksz.NR n ways team := by
  apply @covers_of_bf16Survives blksz n k rsB csB ways team legal columns
    depth delivered atMost
  intro short full unpacked packed
  have reference := equal
    ⟨short.order, short.perm.trans
      (.of_eq (tunedTiles_eq blksz n k ways team).symm)⟩
    (.inOrder _ _ 1) unpacked packed
  have whole := reorderb_schedule_irrelevant legal
    (delivered.trans_le atMost) Nat.one_pos elemSz_pos
    (⟨full.order, full.perm⟩ :
      Schedule (bf16Blocks blksz) (bf16Shape n k rsB csB) ways)
    (.inOrder _ _ 1) unpacked packed
  exact reference.trans whole.symm

/-! ## The un-reorder -/

/-- All schedules of all teams return the same matrix. -/
theorem unreorderb_schedule_irrelevant {blocks : Blocks}
    {shape : MatrixShape} {team otherTeam : Nat} (legal : blocks.Legal)
    (delivered : 0 < team) (otherDelivered : 0 < otherTeam)
    (positive : 0 < shape.elemSz) (strides : shape.InjectiveStrides)
    (schedule : Schedule blocks shape team)
    (other : Schedule blocks shape otherTeam) (packed unpacked : Bytes) :
    dlpReorderRefUnreorderb schedule packed unpacked =
      dlpReorderRefUnreorderb other packed unpacked := by
  funext address
  by_cases inside : ∃ p j, p < shape.k ∧ j < shape.n ∧
      p * shape.rsB + j * shape.csB = address / shape.elemSz
  · rcases inside with ⟨p, j, row, column, atPosition⟩
    rw [unreorderb_at_position delivered legal positive strides schedule
        packed unpacked row column atPosition.symm,
      unreorderb_at_position otherDelivered legal positive strides other
        packed unpacked row column atPosition.symm]
  · have outside : ∀ p j, p < shape.k → j < shape.n →
        p * shape.rsB + j * shape.csB ≠ address / shape.elemSz :=
      fun p j row column same => inside ⟨p, j, row, column, same⟩
    rw [unreorderb_frame legal positive strides schedule packed unpacked
        outside,
      unreorderb_frame legal positive strides other packed unpacked outside]

/-- At the native width the tuned un-reorder runs the tiles of its walk. -/
theorem tunedUnreorderb_native (native : blksz.NR = 64) (rows : 2 ≤ k)
    (strided : Strided n k rsB csB)
    (walk : UnreorderWalk blksz n k rsB csB ways team)
    (packed unpacked : Bytes) :
    tunedUnreorderb walk packed unpacked =
      walk.tuned.order.foldl
        (fun current tile => unpackTile (bf16Blocks blksz)
          (bf16Shape n k rsB csB) packed tile current) unpacked := by
  unfold tunedUnreorderb
  rw [if_neg (not_not.mpr native)]
  have same := funext fun current => funext fun tile =>
    @unpackTuned_eq blksz n k rsB csB native rows strided packed tile current
  rw [same]

/-- A covering tuned un-reorder returns the matrix of the reference. -/
theorem tunedUnreorderb_reference (legal : (bf16Blocks blksz).Legal)
    (rows : 2 ≤ k) (strided : Strided n k rsB csB) (delivered : 0 < team)
    (atMost : team ≤ ways)
    (covers : blksz.NR = 64 → Covers blksz.NR n ways team)
    (walk : UnreorderWalk blksz n k rsB csB ways team) {refTeam : Nat}
    (refDelivered : 0 < refTeam)
    (schedule : Schedule (bf16Blocks blksz) (bf16Shape n k rsB csB) refTeam)
    (packed out : Bytes) :
    tunedUnreorderb walk packed out =
      dlpReorderRefUnreorderb schedule packed out := by
  by_cases native : blksz.NR = 64
  · rw [tunedUnreorderb_native native rows strided]
    exact unreorderb_schedule_irrelevant legal (delivered.trans_le atMost)
      refDelivered elemSz_pos strided.injective
      (walk.tuned.whole rsB csB legal.widths.NR_pos atMost (covers native))
      schedule packed out
  · unfold tunedUnreorderb
    rw [if_pos native]
    exact unreorderb_schedule_irrelevant legal delivered refDelivered
      elemSz_pos strided.injective walk.reference schedule packed out

/-- A native un-reorder that equals the reference reads every column. -/
theorem covers_of_unreorder (legal : (bf16Blocks blksz).Legal)
    (rows : 2 ≤ k) (columns : 0 < n) (strided : Strided n k rsB csB)
    (delivered : 0 < team) (atMost : team ≤ ways) (native : blksz.NR = 64)
    (equal : ∀ (walk : UnreorderWalk blksz n k rsB csB ways team)
      (schedule : Schedule (bf16Blocks blksz) (bf16Shape n k rsB csB) 1)
      (packed out : Bytes),
        tunedUnreorderb walk packed out =
          dlpReorderRefUnreorderb schedule packed out) :
    Covers blksz.NR n ways team := by
  by_contra uncovered
  have depth : 0 < k := by omega
  rcases exists_lost legal columns depth delivered atMost uncovered with
    ⟨p, j, lost⟩
  have half : (p * rsB + j * csB) * 2 / 2 = p * rsB + j * csB :=
    Nat.mul_div_cancel _ Nat.two_pos
  have same := congrFun
    (equal ⟨.inOrder blksz n k ways team, .inOrder _ _ team⟩ (.inOrder _ _ 1)
      (fun _ => 0) fun _ => 1) ((p * rsB + j * csB) * 2)
  have read := unreorderb_at_position Nat.one_pos legal elemSz_pos
    strided.injective
    (.inOrder (bf16Blocks blksz) (bf16Shape n k rsB csB) 1) (fun _ => 0)
    (fun _ => 1) lost.row lost.column half
  have placed : ∀ tile, tile ∈ tunedTiles blksz n k ways team →
      tile.Placed legal n k := by
    intro tile member
    rw [tunedTiles_eq] at member
    exact teamTiles_placed legal (deliveredTiles_mem atMost member)
  have kept : tunedUnreorderb
      (⟨.inOrder blksz n k ways team, .inOrder _ _ team⟩ :
        UnreorderWalk blksz n k rsB csB ways team) (fun _ => 0) (fun _ => 1)
      ((p * rsB + j * csB) * 2) = 1 := by
    rw [tunedUnreorderb_native native rows strided]
    apply foldl_patch_frame fun tile member =>
      unpackTile_patches elemSz_pos strided.injective (placed tile member)
        fun _ => 0
    rintro tile member ⟨p2, j2, window, atPosition⟩
    have inTile := placed tile member
    rcases strided.injective p2 j2 p j (row_lt_of_window inTile window)
        (column_lt_of_window inTile window) lost.row lost.column
        (atPosition.symm.trans half) with ⟨rfl, rfl⟩
    have delivered : tile ∈ deliveredTiles (bf16Blocks blksz) n k ways team :=
      tunedTiles_eq blksz n k ways team ▸ member
    exact lost.unfilled tile delivered
      (region_slotOf (stored_of_placed inTile) window)
  rw [kept] at same
  exact absurd (same.trans read) (by decide)

end Walks

/-! ## Producing with one and consuming with the other -/

/-- The reference restores what the reference packed. -/
theorem restores_reference {blksz : DlpGemmBlockSize} {n k rsB csB : Nat}
    (legal : (bf16Blocks blksz).Legal) (strided : Strided n k rsB csB)
    {packTeam unpackTeam : Nat} (packs : 0 < packTeam)
    (unpacks : 0 < unpackTeam)
    (pack : Schedule (bf16Blocks blksz) (bf16Shape n k rsB csB) packTeam)
    (unpack : Schedule (bf16Blocks blksz) (bf16Shape n k rsB csB) unpackTeam)
    (matrix packed out : Bytes) :
    Restores n k rsB csB matrix
      (dlpReorderRefUnreorderb unpack
        (dlpReorderRefReorderb pack matrix packed) out) := by
  intro p j byte row column inside
  have position := element_of_byte Nat.two_pos
    (p * rsB + j * csB) inside
  have slot := element_of_byte Nat.two_pos
    (slotOf legal n k p j) inside
  rw [unreorderb_at_position unpacks legal elemSz_pos strided.injective unpack
    _ out row column position.1]
  change dlpReorderRefReorderb pack matrix packed
    (slotOf legal n k p j * 2 + _ % 2) = _
  rw [position.2, reorderb_at_slot legal packs elemSz_pos pack matrix packed
    row column slot.1]
  change matrix ((p * rsB + j * csB) * 2 + _ % 2) = _
  rw [slot.2]

/--
The tuned and the reference layouts are interchangeable exactly if the threads
that the tuned walks get cover all columns; the un-reorder counts only at the
width of its vector unpacker.
-/
theorem tuned_interchangeable_iff {blksz : DlpGemmBlockSize}
    {n k rsB csB ways team unWays unTeam : Nat}
    (legal : (bf16Blocks blksz).Legal) (columns : 2 ≤ n) (rows : 2 ≤ k)
    (strided : Strided n k rsB csB) (delivered : 0 < team)
    (atMost : team ≤ ways) (unDelivered : 0 < unTeam)
    (unAtMost : unTeam ≤ unWays) :
    Interchangeable blksz n k rsB csB ways team unWays unTeam ↔
      Covers blksz.NR n ways team ∧
        (blksz.NR = 64 → Covers blksz.NR n unWays unTeam) := by
  constructor
  · intro exchangeable
    refine ⟨?_, fun native => ?_⟩
    · exact covers_of_reorder legal (by omega) (by omega) delivered atMost
        fun walk schedule => exchangeable.reorder walk 1 Nat.one_pos schedule
    · exact covers_of_unreorder legal rows (by omega) strided unDelivered
        unAtMost native
        fun walk schedule => exchangeable.unreorder walk 1 Nat.one_pos schedule
  · rintro ⟨covers, unCovers⟩
    constructor
    case reorder =>
      intro walk refTeam refDelivered schedule matrix packed
      exact tunedReorderb_reference legal delivered atMost covers walk
        refDelivered schedule matrix packed
    case unreorder =>
      intro walk refTeam refDelivered schedule packed out
      exact tunedUnreorderb_reference legal rows strided unDelivered unAtMost
        unCovers walk refDelivered schedule packed out
    case exchange =>
      intro pack unpack refTeam refDelivered schedule matrix packed out
      rw [tunedReorderb_reference legal delivered atMost covers pack
          refDelivered schedule matrix packed,
        tunedUnreorderb_reference legal rows strided unDelivered unAtMost
          unCovers unpack refDelivered schedule]
      have restores := restores_reference legal strided refDelivered
        refDelivered schedule schedule matrix packed out
      exact ⟨restores, restores⟩

/-- The Zen4 blocks of BF16. -/
theorem zen4_legal :
    (bf16Blocks (dlpGemmBlkszMapZen4 .bf16bf16f32of32)).Legal := by
  constructor <;> try decide
  constructor <;> decide

/-- Three threads for a column-major matrix with a fringe and an odd depth. -/
theorem tuned_interchangeable_iff_fringe :
    Interchangeable (dlpGemmBlkszMapZen4 .bf16bf16f32of32) 150 5 1 7 3 3 2 2 :=
  (tuned_interchangeable_iff zen4_legal (by decide) (by decide)
    (Or.inr ⟨rfl, by decide⟩) (by decide) (by decide) (by decide)
    (by decide)).mpr ⟨by decide, by decide⟩

/-- Two threads are requested for 128 columns and one is delivered: the tuned
reorder leaves columns that the reference packs. -/
theorem tuned_differs_short_team :
    ¬ Interchangeable (dlpGemmBlkszMapZen4 .bf16bf16f32of32) 128 4 128 1 2 1 2
      2 := by
  intro exchangeable
  have covers : Covers 64 128 2 1 :=
    covers_of_reorder zen4_legal (by decide) (by decide) (by decide)
      (by decide)
      fun walk schedule => exchangeable.reorder walk 1 Nat.one_pos schedule
  exact absurd covers (by decide)

end AoclDlp.Layout.TunedBf16
