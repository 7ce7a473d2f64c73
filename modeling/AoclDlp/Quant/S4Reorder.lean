import AoclDlp.Foundations.Interleaving
import AoclDlp.Layout.Nibbles
import AoclDlp.Quant.GroupReorder

/-!
# The fused int4 reorder

`dlp_reorderb_nr64_s8s4s32o32` packs strip by strip from the nibbles of B into
a scratch of the thread, and compresses each strip to its halved offset.

The threads run without synchronisation: they clear, pack and compress their
strips in any interleaving.  The fused packers are taken to be the int8 packer
on sign-extended nibbles.
-/

namespace AoclDlp.Quant.S4Reorder

open AoclDlp.Config.BlockSize
open AoclDlp.Foundations.Accumulation
open AoclDlp.Foundations.Interleaving
open AoclDlp.Foundations.Memory
open AoclDlp.Foundations.Rounding
open AoclDlp.Layout.Chunk
open AoclDlp.Layout.GroupTiles
open AoclDlp.Layout.Nibbles
open AoclDlp.Layout.Panel
open AoclDlp.Layout.ReorderRef
open AoclDlp.Layout.S8s8s32
open AoclDlp.Layout.TeamTiles
open AoclDlp.Quant.GroupReorder
open AoclDlp.Quant.GroupSize

/-! ## The fused reorder -/

/-- Bytes of the compact weights, in front of the column sums. -/
def compactWeightBytes (n k : Nat) : Nat :=
  dlpMakeMultipleOfN k 4 * dlpMakeMultipleOfN n 16 / 2

/-- Bytes of one thread's slice of the scratch pool. -/
def stripStride (blksz : DlpGemmBlockSize) : Nat :=
  blksz.NR * dlpMakeMultipleOfN blksz.KC 4

/-- Bytes of a packed strip. -/
def stripBytes (strip : Tile) : Nat :=
  dlpMakeMultipleOfN strip.nc0 16 * dlpMakeMultipleOfN strip.kc0 4

/-- What a thread does to a strip: clear its scratch, call a packer, compress
the scratch into the weights. -/
inductive StripAction where
  | clear (strip : Tile)
  | pack (call : PackCall)
  | compress (strip : Tile)
  deriving DecidableEq, Repr

/-- An action and the thread that takes it. -/
structure StripOp where
  workId : Nat
  action : StripAction
  deriving DecidableEq, Repr

/-- The packer calls for one strip, into the scratch at `base`. -/
def stripCalls (blksz : DlpGemmBlockSize) (sumBase groupSize n k base : Nat)
    (strip : Tile) : List PackCall :=
  (stripPieces blksz.NR (dlpMakeMultipleOfN strip.kc0 4) strip.nc0
      0).flatMap fun chunk =>
    (groupLoop groupSize strip.pc strip.kc0).map
      (packCall sumBase blksz.KC groupSize n k { strip with off := base }
        chunk)

/-- The actions for one strip. -/
def stripOps (blksz : DlpGemmBlockSize) (groupSize n k workId : Nat)
    (strip : Tile) : List StripOp :=
  ⟨workId, .clear strip⟩ ::
    (stripCalls blksz (compactWeightBytes n k) groupSize n k
        (workId * stripStride blksz) strip).map
      (fun call => ⟨workId, .pack call⟩) ++
    [⟨workId, .compress strip⟩]

/-- The actions of one thread of a team. -/
def threadOps (table : DlpGemmBlockSize) (groupSize n k team workId : Nat) :
    List StripOp :=
  let blksz := reorderBlksz table groupSize k
  (rangeTiles (s8Blocks blksz) n k
      (threadRange (s8Blocks blksz) n team workId)).flatMap fun tile =>
    (stripTiles (s8Blocks blksz) tile).flatMap
      (stripOps blksz groupSize n k workId)

/-- The actions of a team, thread by thread. -/
def teamOps (table : DlpGemmBlockSize) (groupSize n k team : Nat) :
    List StripOp :=
  (List.range team).flatMap (threadOps table groupSize n k team)

/-- The memory of the fused reorder. -/
structure FusedMemory where
  weights : Bytes
  words : Nat → BitVec 32
  pool : Bytes

section Run

variable (blksz : DlpGemmBlockSize) (n k rsB csB : Nat) (unpacked : Bytes)

/-- What an action does to the scratch pool. -/
def stepPool (op : StripOp) (pool : Bytes) : Bytes :=
  match op.action with
  | .clear strip =>
      fill (op.workId * stripStride blksz) (stripBytes strip) 0 pool
  | .pack call =>
      packTile (s8Blocks blksz) (s8Shape n k rsB csB) unpacked call.tile pool
  | .compress _ => pool

/-- One action of a thread. -/
def runStripOp (op : StripOp) (memory : FusedMemory) : FusedMemory where
  weights :=
    match op.action with
    | .compress strip =>
        dlpCvtS8ToS4Linear (strip.off / 2) (op.workId * stripStride blksz)
          memory.pool (stripBytes strip) memory.weights
    | _ => memory.weights
  words :=
    match op.action with
    | .pack call =>
        addAll (callWrites blksz rsB csB unpacked call) memory.words
    | _ => memory.words
  pool := stepPool blksz n k rsB csB unpacked op memory.pool

end Run

/-- The row stride that a packer assumes: the column-major packer, which runs
unless the columns are adjacent, steps through adjacent rows. -/
def packerRs (rsB csB : Nat) : Nat :=
  if csB = 1 then rsB else 1

/-- The memory that the fused reorder starts its team on. -/
def fusedStart (KC groupSize n k : Nat) (pool : Bytes)
    (buffer : ReorderBuffer) : FusedMemory where
  weights := buffer.image
  words := clearWords (compactWeightBytes n k)
    (dlpGemmSymQuantSumVectors KC groupSize k * dlpMakeMultipleOfN n 16)
    buffer.words
  pool := pool

/-- The fused `dlp_reorderb_nr64_s8s4s32o32` under an interleaving of its
team. -/
def dlpReorderbNr64S8s4s32o32 {table : DlpGemmBlockSize}
    {groupSize n k : Nat} {numThreads : Int} (rsB csB : Nat)
    (schedule : Interleaved StripOp.workId
      (teamOps table groupSize n k (reorderThreads numThreads)))
    (b pool : Bytes) (buffer : ReorderBuffer) : ReorderBuffer :=
  let blksz := reorderBlksz table groupSize k
  let done := schedule.order.foldl
    (fun memory op =>
      runStripOp blksz n k (packerRs rsB csB) csB (nibbleAt b) op memory)
    (fusedStart blksz.KC groupSize n k pool buffer)
  ⟨done.weights, done.words⟩

/-! ## A packed strip -/

/-- The cells of an image: each element at its slot, zero elsewhere. -/
structure PackedImage {blocks : Blocks} (legal : blocks.Legal)
    (n k : Nat) (value : Nat → Nat → UInt8) (image : Bytes) : Prop where
  at_slot : ∀ p j, p < k → j < n → image (slotOf legal n k p j) = value p j
  padding : ∀ slot,
    slot < roundUp n blocks.minNR * roundUp k blocks.kFactor →
    (∀ p j, p < k → j < n → slotOf legal n k p j ≠ slot) → image slot = 0

/-- Every cell of an image is zero or an element. -/
theorem PackedImage.of_cells {blocks : Blocks} {legal : blocks.Legal}
    {n k : Nat} {value : Nat → Nat → UInt8} {image : Bytes}
    (packed : PackedImage legal n k value image) {Holds : UInt8 → Prop}
    (zero : Holds 0) (elements : ∀ p j, p < k → j < n → Holds (value p j))
    {slot : Nat}
    (below : slot < roundUp n blocks.minNR * roundUp k blocks.kFactor) :
    Holds (image slot) := by
  by_cases stored : ∃ p j, p < k ∧ j < n ∧ slotOf legal n k p j = slot
  · rcases stored with ⟨p, j, row, column, rfl⟩
    rw [packed.at_slot p j row column]
    exact elements p j row column
  · rw [packed.padding slot below fun p j row column same =>
      stored ⟨p, j, row, column, same⟩]
    exact zero

/-- The parts of a strip, chunk by chunk and group by group. -/
def stripParts (NR groupSize : Nat) (strip : Tile) : List Tile :=
  (panelChunks strip.nc0 NR 16 (roundUp strip.kc0 4)).flatMap fun chunk =>
    (groupLoop groupSize strip.pc strip.kc0).map (groupTile strip chunk)

theorem stripParts_moved (NR groupSize base : Nat) (strip : Tile) :
    stripParts NR groupSize { strip with off := base } =
      (stripParts NR groupSize { strip with off := 0 }).map
        (movedTile base) := by
  unfold stripParts
  rw [List.map_flatMap]
  apply List.flatMap_congr
  intro chunk _
  rw [List.map_map]
  apply List.map_congr_left
  intro piece _
  unfold groupTile movedTile
  dsimp only [Function.comp_apply]
  congr 1
  omega

section Strip

variable {table : DlpGemmBlockSize} {groupSize n k rsB csB : Nat}

/-- A strip is packed like a tile of its own. -/
theorem stripCalls_eq (sumBase base : Nat) {strip : Tile} (nonempty : 0 < strip.nc0)
    (narrow : strip.nc0 ≤ table.NR) :
    stripCalls (reorderBlksz table groupSize k) sumBase groupSize n k base
        strip =
      tileCalls (reorderBlksz table groupSize k) sumBase groupSize n k
        { strip with off := base } := by
  have pieces : stripLoop strip.nc0 table.NR (dlpMakeMultipleOfN strip.kc0 4)
      strip.nc0 0 =
        stripPieces table.NR (dlpMakeMultipleOfN strip.kc0 4) strip.nc0 0 := by
    rcases Nat.exists_eq_succ_of_ne_zero nonempty.ne' with ⟨fuel, same⟩
    conv_lhs => rw [same]
    unfold stripLoop
    rw [if_pos (Nat.succ_pos fuel), stripLoop_of_done fuel (by omega),
      List.append_nil, Nat.sub_zero, ← same, min_eq_left narrow]
  unfold stripCalls tileCalls
  exact congrArg
    (fun pieces => List.flatMap (fun chunk =>
      (groupLoop groupSize strip.pc strip.kc0).map
        (packCall sumBase (reorderBlksz table groupSize k).KC groupSize n k
          { strip with off := base } chunk)) pieces) pieces.symm

theorem stripCalls_tiles (legal : GroupLegal table groupSize k)
    (sumBase base : Nat) {strip : Tile} (nonempty : 0 < strip.nc0)
    (narrow : strip.nc0 ≤ table.NR) :
    (stripCalls (reorderBlksz table groupSize k) sumBase groupSize n k base
        strip).map PackCall.tile =
      stripParts table.NR groupSize { strip with off := base } := by
  rw [stripCalls_eq sumBase base nonempty narrow,
    tileCalls_eq legal.blksz, List.map_flatMap]
  apply List.flatMap_congr
  intro chunk _
  rw [List.map_map]
  rfl

/-- Packing the parts of a strip leaves the image in its region. -/
theorem stripParts_image (legal : GroupLegal table groupSize k)
    {unpacked image : Bytes}
    (packed : PackedImage legal.blksz.blocks n k
      (fun p j => unpacked (p * rsB + j * csB)) image)
    {strip : Tile} (placed : strip.Placed legal.blksz.blocks n k)
    (memory : Bytes) {slot : Nat}
    (inside : Region (s8Blocks (reorderBlksz table groupSize k)) strip
      slot) :
    packTiles (s8Blocks (reorderBlksz table groupSize k))
        (s8Shape n k rsB csB) unpacked (stripParts table.NR groupSize strip)
        memory slot = image slot := by
  have member {chunk : DlpReorderChunk} {piece : GroupPiece}
      (visited : chunk ∈ panelChunks strip.nc0 table.NR 16
        (roundUp strip.kc0 4))
      (inLoop : piece ∈ groupLoop groupSize strip.pc strip.kc0) :
      groupTile strip chunk piece ∈ stripParts table.NR groupSize strip :=
    List.mem_flatMap.mpr ⟨chunk, visited, List.mem_map_of_mem inLoop⟩
  have stored : ∀ part, part ∈ stripParts table.NR groupSize strip →
      Stored legal.blksz.blocks n k part := by
    intro part inParts
    rcases List.mem_flatMap.mp inParts with ⟨chunk, visited, inGroups⟩
    rcases List.mem_map.mp inGroups with ⟨piece, inLoop, rfl⟩
    exact stored_groupTile placed visited
      (rowCut_of_mem placed legal.group_pos legal.whole inLoop)
  by_cases element : ∃ p j, p < k ∧ j < n ∧
      slotOf legal.blksz.blocks n k p j = slot
  · rcases element with ⟨p, j, row, column, rfl⟩
    have window := window_of_region placed row column inside
    rcases exists_groupTile_window placed legal.group_pos window with
      ⟨chunk, visited, piece, inLoop, inPart⟩
    rw [packed.at_slot p j row column]
    exact s8Tiles_at_slot legal.blksz stored unpacked memory row column
      ⟨_, member visited inLoop, inPart⟩
  · have empty : ∀ p j, p < k → j < n →
        slotOf legal.blksz.blocks n k p j ≠ slot :=
      fun p j row column same => element ⟨p, j, row, column, same⟩
    rcases exists_groupTile_region placed legal.group_pos legal.whole inside
      with ⟨chunk, visited, piece, inLoop, inPart⟩
    rw [packed.padding slot (region_lt placed inside) empty]
    exact s8Tiles_padding legal.blksz stored unpacked memory
      ⟨_, member visited inLoop, inPart⟩ empty

end Strip

/-! ## The scratch of a thread -/

section Scratch

variable {table : DlpGemmBlockSize} {groupSize n k rsB csB : Nat}

/-- A strip of the walk. -/
structure IsStrip (legal : GroupLegal table groupSize k) (n : Nat)
    (strip : Tile) : Prop where
  placed : strip.Placed legal.blksz.blocks n k
  narrow : strip.nc0 ≤ table.NR

theorem region_add_iff (blksz : DlpGemmBlockSize) (strip : Tile) (y : Nat) :
    Region (s8Blocks blksz) strip (strip.off + y) ↔ y < stripBytes strip := by
  have padded : dlpReorderPanelElems strip.nc0 strip.kc0 16 4 =
      stripBytes strip := by
    unfold dlpReorderPanelElems
    rw [dlpReorderRoundUp_eq (Nat.succ_pos 15),
      dlpReorderRoundUp_eq (Nat.succ_pos 3)]
    rfl
  change strip.off ≤ strip.off + y ∧ strip.off + y < strip.off +
    dlpReorderPanelElems strip.nc0 strip.kc0 16 4 ↔ _
  rw [padded]
  omega

/-- A packed strip fits into the slice of its thread. -/
theorem IsStrip.bytes_le {legal : GroupLegal table groupSize k}
    {strip : Tile} (isStrip : IsStrip legal n strip) :
    stripBytes strip ≤ stripStride (reorderBlksz table groupSize k) := by
  have height : strip.kc0 ≤ (reorderBlksz table groupSize k).KC :=
    isStrip.placed.kc0_eq.trans_le (min_le_right _ _)
  apply Nat.mul_le_mul
  · exact roundUp_le_of_dvd (Nat.succ_pos 15) legal.table.NR_dvd
      isStrip.narrow
  · exact roundUp_le_of_dvd (Nat.succ_pos 3) (dvd_roundUp _ 4)
      (height.trans (le_roundUp (Nat.succ_pos 3) _))

/-- The action belongs to a strip of the thread. -/
def OfStrip (legal : GroupLegal table groupSize k) (n workId : Nat)
    (op : StripOp) : Prop :=
  op.workId = workId ∧
    ∃ strip, IsStrip legal n strip ∧
      op ∈ stripOps (reorderBlksz table groupSize k) groupSize n k workId
        strip

/-- The three kinds of actions for a strip. -/
theorem mem_stripOps_iff {blksz : DlpGemmBlockSize} {workId : Nat}
    {strip : Tile} {op : StripOp} :
    op ∈ stripOps blksz groupSize n k workId strip ↔
      op = ⟨workId, .clear strip⟩ ∨
      (∃ call, call ∈ stripCalls blksz (compactWeightBytes n k) groupSize n k
          (workId * stripStride blksz) strip ∧
        op = ⟨workId, .pack call⟩) ∨
      op = ⟨workId, .compress strip⟩ := by
  simp only [stripOps, List.cons_append, List.mem_cons, List.mem_append,
    List.mem_map, List.not_mem_nil, or_false, eq_comm]

/-- A thread compresses its strips only. -/
theorem OfStrip.compressed {legal : GroupLegal table groupSize k}
    {workId : Nat} {op : StripOp} (ofStrip : OfStrip legal n workId op)
    {strip : Tile} (action : op.action = .compress strip) :
    IsStrip legal n strip := by
  rcases ofStrip with ⟨-, own, isStrip, member⟩
  rcases mem_stripOps_iff.mp member with rfl | ⟨_, _, rfl⟩ | rfl
  · cases action
  · cases action
  · rw [← StripAction.compress.inj action]
    exact isStrip

/-- The packers of a strip write into the strip's part of the slice. -/
theorem stripCalls_region (legal : GroupLegal table groupSize k)
    {strip : Tile} (isStrip : IsStrip legal n strip) {sumBase base : Nat}
    {call : PackCall}
    (member : call ∈ stripCalls (reorderBlksz table groupSize k) sumBase
      groupSize n k base strip) {address : Nat}
    (inside : Region (s8Blocks (reorderBlksz table groupSize k)) call.tile
      address) :
    base ≤ address ∧ address < base + stripBytes strip := by
  have inParts := List.mem_map_of_mem member (f := PackCall.tile)
  rw [stripCalls_tiles legal sumBase base isStrip.placed.nonempty
    isStrip.narrow] at inParts
  rcases List.mem_flatMap.mp inParts with ⟨chunk, visited, inGroups⟩
  rcases List.mem_map.mp inGroups with ⟨piece, inLoop, same⟩
  have cut := rowCut_of_mem isStrip.placed legal.group_pos legal.whole inLoop
  have moved (off : Nat) : groupTile { strip with off := off } chunk piece =
      movedTile off (groupTile { strip with off := 0 } chunk piece) := by
    unfold groupTile movedTile
    dsimp only
    congr 1
    omega
  rw [← same, moved] at inside
  have lower : base ≤ address := by
    have start := inside.1
    unfold movedTile at start
    dsimp only at start
    omega
  rcases Nat.exists_eq_add_of_le lower with ⟨y, rfl⟩
  rw [region_moved, ← region_moved strip.off, ← moved] at inside
  have inStrip := (region_add_iff _ strip y).mp
    (region_of_groupTile isStrip.placed visited cut inside)
  exact ⟨lower, Nat.add_lt_add_left inStrip base⟩

/-- An action changes the slice of its own thread only. -/
theorem stepPool_frame (legal : GroupLegal table groupSize k)
    (unpacked : Bytes) {workId : Nat} {op : StripOp}
    (ofStrip : OfStrip legal n workId op) (pool : Bytes) {address : Nat}
    (outside : ¬ (workId * stripStride (reorderBlksz table groupSize k) ≤
        address ∧
      address < workId * stripStride (reorderBlksz table groupSize k) +
        stripStride (reorderBlksz table groupSize k))) :
    stepPool (reorderBlksz table groupSize k) n k rsB csB unpacked op pool
      address = pool address := by
  rcases ofStrip with ⟨-, strip, isStrip, member⟩
  have fits := isStrip.bytes_le
  rcases mem_stripOps_iff.mp member with rfl | ⟨call, inCalls, rfl⟩ | rfl
  · exact fill_outside 0 pool fun inside =>
      outside ⟨inside.1, inside.2.trans_le (Nat.add_le_add_left fits _)⟩
  · apply packTile_frame legal.blksz.blocks Nat.one_pos
    change ¬ Region _ _ (address / 1)
    rw [Nat.div_one]
    intro inside
    have bounds := stripCalls_region legal isStrip inCalls inside
    exact outside
      ⟨bounds.1, bounds.2.trans_le (Nat.add_le_add_left fits _)⟩
  · rfl

/-- A cell of the pool after an action depends on its own old value only. -/
theorem stepPool_congr (blksz : DlpGemmBlockSize) (unpacked : Bytes)
    (op : StripOp) {left right : Bytes} {address : Nat}
    (same : left address = right address) :
    stepPool blksz n k rsB csB unpacked op left address =
      stepPool blksz n k rsB csB unpacked op right address := by
  rcases op with ⟨workId, action⟩
  cases action with
  | clear strip => simp only [stepPool, fill, same]
  | pack call => exact packTile_congr unpacked _ same
  | compress strip => exact same

/-- The scratch of a thread holds the image of a strip. -/
def Held (blksz : DlpGemmBlockSize) (image pool : Bytes) (workId : Nat)
    (strip : Tile) : Prop :=
  ∀ y, y < stripBytes strip →
    pool (workId * stripStride blksz + y) = image (strip.off + y)

/-- Whenever the actions compress a strip, the scratch holds it. -/
def Sound (blksz : DlpGemmBlockSize) (n k rsB csB : Nat)
    (unpacked image : Bytes) : List StripOp → Bytes → Prop
  | [], _ => True
  | op :: rest, pool =>
      (∀ strip, op.action = .compress strip →
        Held blksz image pool op.workId strip) ∧
      Sound blksz n k rsB csB unpacked image rest
        (stepPool blksz n k rsB csB unpacked op pool)

theorem sound_append {blksz : DlpGemmBlockSize} {unpacked image : Bytes}
    (first rest : List StripOp) (pool : Bytes) :
    Sound blksz n k rsB csB unpacked image (first ++ rest) pool ↔
      Sound blksz n k rsB csB unpacked image first pool ∧
        Sound blksz n k rsB csB unpacked image rest
          (first.foldl (fun current op =>
            stepPool blksz n k rsB csB unpacked op current) pool) := by
  induction first generalizing pool with
  | nil => exact (true_and _).symm.to_iff
  | cons op first ih =>
      rw [List.cons_append, Sound, Sound, ih, List.foldl_cons, and_assoc]

/-- Only the slice of the thread matters. -/
theorem sound_congr {legal : GroupLegal table groupSize k}
    {unpacked image : Bytes} {workId : Nat} {ops : List StripOp}
    (ofStrip : ∀ op, op ∈ ops → OfStrip legal n workId op)
    {left right : Bytes}
    (same : ∀ y, y < stripStride (reorderBlksz table groupSize k) →
      left (workId * stripStride (reorderBlksz table groupSize k) + y) =
        right (workId * stripStride (reorderBlksz table groupSize k) + y))
    (sound : Sound (reorderBlksz table groupSize k) n k rsB csB unpacked
      image ops left) :
    Sound (reorderBlksz table groupSize k) n k rsB csB unpacked image ops
      right := by
  induction ops generalizing left right with
  | nil => trivial
  | cons op rest ih =>
      have mine := ofStrip op List.mem_cons_self
      refine ⟨?_, ih (fun other inRest =>
        ofStrip other (List.mem_cons_of_mem _ inRest)) ?_ sound.2⟩
      · intro strip action y inside
        have fits := (mine.compressed action).bytes_le
        rw [mine.1, ← same y (inside.trans_le fits), ← mine.1]
        exact sound.1 strip action y inside
      · intro y inside
        exact stepPool_congr _ unpacked op (same y inside)

/-- The packers of a strip leave its image in the scratch. -/
theorem packed_held (legal : GroupLegal table groupSize k)
    {unpacked image : Bytes}
    (packed : PackedImage legal.blksz.blocks n k
      (fun p j => unpacked (p * rsB + j * csB)) image)
    {strip : Tile} (isStrip : IsStrip legal n strip) (workId : Nat)
    (pool : Bytes) :
    Held (reorderBlksz table groupSize k) image
      ((stripCalls (reorderBlksz table groupSize k) (compactWeightBytes n k)
          groupSize n k
          (workId * stripStride (reorderBlksz table groupSize k))
          strip).foldl
        (fun current call =>
          packTile (s8Blocks (reorderBlksz table groupSize k))
            (s8Shape n k rsB csB) unpacked call.tile current) pool)
      workId strip := by
  intro y inside
  generalize workId * stripStride (reorderBlksz table groupSize k) = base
  have moved := @s8Tiles_moved (reorderBlksz table groupSize k) n k rsB csB
    unpacked (stripParts table.NR groupSize { strip with off := 0 }) base
    strip.off y pool (fun slot => pool (base + (slot - strip.off)))
    (by rw [Nat.add_sub_cancel_left])
  rw [← stripParts_moved, ← stripParts_moved,
    ← stripCalls_tiles legal (compactWeightBytes n k) base
      isStrip.placed.nonempty isStrip.narrow, packTiles, List.foldl_map]
    at moved
  rw [moved]
  exact stripParts_image legal packed isStrip.placed _
    ((region_add_iff _ strip y).mpr inside)

theorem sound_packs {blksz : DlpGemmBlockSize} {unpacked image : Bytes}
    (workId : Nat) (calls : List PackCall) (pool : Bytes) :
    Sound blksz n k rsB csB unpacked image
      (calls.map fun call => ⟨workId, .pack call⟩) pool := by
  induction calls generalizing pool with
  | nil => trivial
  | cons call rest ih =>
      rw [List.map_cons]
      exact ⟨fun _ action => (by cases action), ih _⟩

/-- A thread compresses a strip when its scratch holds it. -/
theorem sound_stripOps (legal : GroupLegal table groupSize k)
    {unpacked image : Bytes}
    (packed : PackedImage legal.blksz.blocks n k
      (fun p j => unpacked (p * rsB + j * csB)) image)
    {strip : Tile} (isStrip : IsStrip legal n strip) (workId : Nat)
    (pool : Bytes) :
    Sound (reorderBlksz table groupSize k) n k rsB csB unpacked image
      (stripOps (reorderBlksz table groupSize k) groupSize n k workId strip)
      pool := by
  unfold stripOps
  rw [List.cons_append]
  refine ⟨fun _ action => (by cases action), ?_⟩
  rw [sound_append]
  refine ⟨sound_packs workId _ _, ?_, trivial⟩
  intro other action
  rw [← StripAction.compress.inj action, List.foldl_map]
  exact packed_held legal packed isStrip workId _

theorem sound_strips (legal : GroupLegal table groupSize k)
    {unpacked image : Bytes}
    (packed : PackedImage legal.blksz.blocks n k
      (fun p j => unpacked (p * rsB + j * csB)) image)
    {strips : List Tile}
    (isStrip : ∀ strip, strip ∈ strips → IsStrip legal n strip)
    (workId : Nat) (pool : Bytes) :
    Sound (reorderBlksz table groupSize k) n k rsB csB unpacked image
      (strips.flatMap
        (stripOps (reorderBlksz table groupSize k) groupSize n k workId))
      pool := by
  induction strips generalizing pool with
  | nil => trivial
  | cons strip rest ih =>
      rw [List.flatMap_cons, sound_append]
      exact ⟨sound_stripOps legal packed (isStrip strip List.mem_cons_self)
        workId pool,
        ih (fun other member => isStrip other (List.mem_cons_of_mem _ member))
          _⟩

end Scratch

/-! ## The team -/

section Team

variable {table : DlpGemmBlockSize} {groupSize n k rsB csB : Nat}
    {numThreads : Int}

/-- The strips of one thread. -/
def threadStrips (table : DlpGemmBlockSize)
    (groupSize n k team workId : Nat) : List Tile :=
  (rangeTiles (s8Blocks (reorderBlksz table groupSize k)) n k
    (threadRange (s8Blocks (reorderBlksz table groupSize k)) n team
      workId)).flatMap
    (stripTiles (s8Blocks (reorderBlksz table groupSize k)))

theorem threadOps_eq (team workId : Nat) :
    threadOps table groupSize n k team workId =
      (threadStrips table groupSize n k team workId).flatMap
        (stripOps (reorderBlksz table groupSize k) groupSize n k workId) := by
  rw [threadOps, threadStrips, List.flatMap_assoc]

theorem threadStrips_isStrip (legal : GroupLegal table groupSize k)
    {team workId : Nat} (valid : workId < team) {strip : Tile}
    (member : strip ∈ threadStrips table groupSize n k team workId) :
    IsStrip legal n strip := by
  rcases List.mem_flatMap.mp member with ⟨tile, inRange, inStrips⟩
  have inTeam : tile ∈ teamTiles
      (s8Blocks (reorderBlksz table groupSize k)) n k team :=
    List.mem_flatMap.mpr ⟨workId, List.mem_range.mpr valid, inRange⟩
  refine ⟨stripTiles_placed (teamTiles_placed legal.blksz.blocks inTeam)
    inStrips, ?_⟩
  rcases List.mem_map.mp inStrips with ⟨piece, inLoop, rfl⟩
  have width := (pcLoop_mem (dvd_zero _) inLoop).2.2
  change piece.start + piece.width - piece.start ≤ table.NR
  rw [Nat.add_sub_cancel_left, width]
  exact min_le_right _ _

theorem threadOps_ofStrip (legal : GroupLegal table groupSize k)
    {team workId : Nat} (valid : workId < team) {op : StripOp}
    (member : op ∈ threadOps table groupSize n k team workId) :
    OfStrip legal n workId op := by
  rw [threadOps_eq] at member
  rcases List.mem_flatMap.mp member with ⟨strip, inStrips, inOps⟩
  refine ⟨?_, strip, threadStrips_isStrip legal valid inStrips, inOps⟩
  rcases mem_stripOps_iff.mp inOps with rfl | ⟨_, _, rfl⟩ | rfl
  · rfl
  · rfl
  · rfl

/-- The team runs the actions of each of its threads, and no others. -/
theorem ownOps_teamOps (legal : GroupLegal table groupSize k)
    (team workId : Nat) :
    ownOps StripOp.workId workId (teamOps table groupSize n k team) =
      if workId < team then threadOps table groupSize n k team workId
      else [] := by
  exact ownOps_programs (fun _ valid _ member =>
    (threadOps_ofStrip legal valid member).1) workId

/-- What a thread still has to run finds every strip in its scratch. -/
def Ready (legal : GroupLegal table groupSize k) (n rsB csB : Nat)
    (unpacked image : Bytes) (workId : Nat) (ops : List StripOp)
    (memory : FusedMemory) : Prop :=
  (∀ op, op ∈ ops → OfStrip legal n workId op) ∧
    Sound (reorderBlksz table groupSize k) n k rsB csB unpacked image ops
      memory.pool

/-- The action compresses the byte `a` of the weights. -/
def Compresses (blksz : DlpGemmBlockSize) (op : StripOp) (a : Nat) : Prop :=
  ∃ strip, op.action = .compress strip ∧
    Region (s8Blocks blksz) strip (2 * a)

/-- Every byte of the weights is still to be compressed or holds its pair. -/
def Compressed (blksz : DlpGemmBlockSize) (n k : Nat) (image : Bytes)
    (later : List StripOp) (memory : FusedMemory) : Prop :=
  ∀ a, a < compactWeightBytes n k →
    (∃ op, op ∈ later ∧ Compresses blksz op a) ∨
      memory.weights a = nibblePair (image (2 * a)) (image (2 * a + 1))

/-- Placed strips start and end at whole bytes of the weights. -/
theorem IsStrip.even {legal : GroupLegal table groupSize k} {strip : Tile}
    (isStrip : IsStrip legal n strip) :
    2 ∣ strip.off ∧ 2 ∣ stripBytes strip := by
  have start : 4 ∣ strip.off := kFactor_dvd_off isStrip.placed
  have rows : 4 ∣ dlpMakeMultipleOfN strip.kc0 4 := dvd_roundUp strip.kc0 4
  have two : 2 ∣ 4 := by decide
  exact ⟨two.trans start, two.trans (rows.mul_left _)⟩

/-- Compressing a held strip writes its pairs and nothing else. -/
theorem compress_apply {legal : GroupLegal table groupSize k} {strip : Tile}
    (isStrip : IsStrip legal n strip) {image pool : Bytes} {workId : Nat}
    (held : Held (reorderBlksz table groupSize k) image pool workId strip)
    (weights : Bytes) (a : Nat) :
    (Region (s8Blocks (reorderBlksz table groupSize k)) strip (2 * a) →
      dlpCvtS8ToS4Linear (strip.off / 2)
          (workId * stripStride (reorderBlksz table groupSize k)) pool
          (stripBytes strip) weights a =
        nibblePair (image (2 * a)) (image (2 * a + 1))) ∧
    (¬ Region (s8Blocks (reorderBlksz table groupSize k)) strip (2 * a) →
      dlpCvtS8ToS4Linear (strip.off / 2)
          (workId * stripStride (reorderBlksz table groupSize k)) pool
          (stripBytes strip) weights a = weights a) := by
  rcases isStrip.even with ⟨⟨half, start⟩, count, size⟩
  have written := dlpCvtS8ToS4Linear_apply (strip.off / 2)
    (workId * stripStride (reorderBlksz table groupSize k)) count pool
    weights a
  have halved : strip.off / 2 = half := by omega
  have inside : Region (s8Blocks (reorderBlksz table groupSize k)) strip
      (2 * a) ↔ half ≤ a ∧ a < half + count := by
    constructor
    · intro region
      rcases Nat.exists_eq_add_of_le region.1 with ⟨y, split⟩
      rw [split] at region
      have below := (region_add_iff _ strip y).mp region
      omega
    · rintro ⟨lower, upper⟩
      have split : 2 * a = strip.off + 2 * (a - half) := by omega
      rw [split, region_add_iff]
      omega
  rw [← size, halved] at written
  rw [halved, inside, written]
  refine ⟨?_, fun outside => if_neg outside⟩
  intro bounds
  have low := held (2 * (a - half)) (by omega)
  have high := held (2 * (a - half) + 1) (by omega)
  have position : strip.off + 2 * (a - half) = 2 * a := by omega
  rw [if_pos bounds, low, high, ← Nat.add_assoc, position]

/-- Each step of the team keeps what the threads rely on, and compresses
pairs of the image. -/
theorem fused_stepRule (legal : GroupLegal table groupSize k)
    (unpacked image : Bytes) :
    StepRule StripOp.workId
      (runStripOp (reorderBlksz table groupSize k) n k rsB csB unpacked)
      (Ready legal n rsB csB unpacked image)
      (Compressed (reorderBlksz table groupSize k) n k image) where
  own := by
    rintro op rest memory ⟨ofStrip, sound⟩
    exact ⟨fun other inRest => ofStrip other (List.mem_cons_of_mem _ inRest),
      sound.2⟩
  other := by
    rintro op rest memory ⟨ofStrip, -⟩ workId ops different
      ⟨theirStrips, sound⟩
    refine ⟨theirStrips, sound_congr theirStrips ?_ sound⟩
    intro y inside
    apply Eq.symm
    apply stepPool_frame legal unpacked (ofStrip op List.mem_cons_self)
    rintro ⟨lower, upper⟩
    apply different
    have first := Nat.div_eq_of_lt_le (Nat.le_add_right
      (workId * stripStride (reorderBlksz table groupSize k)) y)
      (by rw [Nat.succ_mul]; omega)
    have second := Nat.div_eq_of_lt_le lower
      (by rw [Nat.succ_mul]; omega)
    exact first.symm.trans second
  step := by
    rintro op rest later memory ⟨ofStrip, sound⟩ compressed a below
    have mine := ofStrip op List.mem_cons_self
    by_cases now : Compresses (reorderBlksz table groupSize k) op a
    · rcases now with ⟨strip, action, inside⟩
      refine Or.inr ?_
      have written := (compress_apply (mine.compressed action)
        (sound.1 strip action) memory.weights a).1 inside
      simp only [runStripOp, action]
      exact written
    · have kept : (runStripOp (reorderBlksz table groupSize k) n k rsB csB
          unpacked op memory).weights a = memory.weights a := by
        rcases op with ⟨workId, action⟩
        cases action with
        | clear strip => rfl
        | pack call => rfl
        | compress strip =>
            exact (compress_apply (mine.compressed rfl) (sound.1 strip rfl)
              memory.weights a).2 fun inside => now ⟨strip, rfl, inside⟩
      rcases compressed a below with ⟨other, inLater, touches⟩ | written
      · rcases List.mem_cons.mp inLater with rfl | inRest
        · exact absurd touches now
        · exact Or.inl ⟨other, inRest, touches⟩
      · exact Or.inr (kept.trans written)

/-- Every byte of the weights is compressed by some thread. -/
theorem exists_compresses (legal : GroupLegal table groupSize k) {team : Nat}
    (delivered : 0 < team) {a : Nat} (below : a < compactWeightBytes n k) :
    ∃ op, op ∈ teamOps table groupSize n k team ∧
      Compresses (reorderBlksz table groupSize k) op a := by
  have inImage : 2 * a < roundUp n 16 * roundUp k 4 := by
    have whole : compactWeightBytes n k = roundUp k 4 * roundUp n 16 / 2 :=
      rfl
    rw [Nat.mul_comm (roundUp n 16)]
    omega
  rcases exists_region legal.blksz.blocks delivered inImage with
    ⟨tile, inTeam, inTile⟩
  rcases exists_strip_region
      (teamTiles_placed legal.blksz.blocks inTeam) inTile with
    ⟨strip, inStrips, inside⟩
  rcases List.mem_flatMap.mp inTeam with ⟨workId, valid, inRange⟩
  refine ⟨⟨workId, .compress strip⟩, ?_, strip, rfl, inside⟩
  refine List.mem_flatMap.mpr ⟨workId, valid, ?_⟩
  rw [threadOps_eq]
  exact List.mem_flatMap.mpr
    ⟨strip, List.mem_flatMap.mpr ⟨tile, inRange, inStrips⟩,
      mem_stripOps_iff.mpr (Or.inr (Or.inr rfl))⟩

/-- The fused reorder stores the pairs of the image, whatever the team and
the interleaving. -/
theorem fused_weights (legal : GroupLegal table groupSize k)
    (schedule : Interleaved StripOp.workId
      (teamOps table groupSize n k (reorderThreads numThreads)))
    {b image : Bytes}
    (packed : PackedImage legal.blksz.blocks n k
      (fun p j => nibbleAt b (p * packerRs rsB csB + j * csB)) image)
    (pool : Bytes) (buffer : ReorderBuffer) {a : Nat}
    (below : a < compactWeightBytes n k) :
    (dlpReorderbNr64S8s4s32o32 rsB csB schedule b pool buffer).image a =
      nibblePair (image (2 * a)) (image (2 * a + 1)) := by
  have ready : ∀ workId, Ready legal n (packerRs rsB csB) csB (nibbleAt b)
      image workId (ownOps StripOp.workId workId schedule.order)
      (fusedStart (reorderBlksz table groupSize k).KC groupSize n k pool
        buffer) := by
    intro workId
    rw [schedule.inOrder, ownOps_teamOps legal]
    split
    next valid =>
      refine ⟨fun op member => threadOps_ofStrip legal valid member, ?_⟩
      rw [threadOps_eq]
      exact sound_strips legal packed
        (fun strip member => threadStrips_isStrip legal valid member)
        workId pool
    next => exact ⟨fun op member => (by cases member), trivial⟩
  have covered : Compressed (reorderBlksz table groupSize k) n k image
      schedule.order
      (fusedStart (reorderBlksz table groupSize k).KC groupSize n k pool
        buffer) := by
    intro byte inside
    rcases exists_compresses legal (reorderThreads_pos numThreads) inside
      with ⟨op, inTeam, touches⟩
    exact Or.inl ⟨op, schedule.perm.mem_iff.mpr inTeam, touches⟩
  have done := (fused_stepRule legal (nibbleAt b) image).holds ready covered
  rcases done a below with ⟨op, member, -⟩ | written
  · cases member
  · exact written

/-! ## The column sums of the fused reorder -/

/-- What an action adds to the column sums. -/
def opWrites (blksz : DlpGemmBlockSize) (rsB csB : Nat) (unpacked : Bytes)
    (op : StripOp) : List (Nat × BitVec 32) :=
  match op.action with
  | .pack call => callWrites blksz rsB csB unpacked call
  | _ => []

theorem fusedWords_eq_addAll (blksz : DlpGemmBlockSize) (unpacked : Bytes)
    (order : List StripOp) (memory : FusedMemory) :
    (order.foldl
        (fun current op => runStripOp blksz n k rsB csB unpacked op current)
        memory).words =
      addAll (order.flatMap (opWrites blksz rsB csB unpacked))
        memory.words := by
  unfold addAll
  rw [List.foldl_flatMap]
  induction order generalizing memory with
  | nil => rfl
  | cons op rest ih =>
      rw [List.foldl_cons, List.foldl_cons, ih]
      congr 1
      rcases op with ⟨workId, action⟩
      cases action with
      | clear strip => rfl
      | pack call => rfl
      | compress strip => rfl

/-- What the actions for one strip add. -/
theorem stripOps_added (legal : GroupLegal table groupSize k)
    (unpacked : Bytes) {strip : Tile} (isStrip : IsStrip legal n strip)
    (workId : Nat) {v j : Nat} (column : j < dlpMakeMultipleOfN n 16) :
    ((stripOps (reorderBlksz table groupSize k) groupSize n k workId
        strip).map fun op =>
          addedAt
            (opWrites (reorderBlksz table groupSize k) rsB csB unpacked op)
            (compactWeightBytes n k +
              4 * (v * dlpMakeMultipleOfN n 16 + j))).sum =
      if strip.jc ≤ j ∧ j < strip.jc + strip.nc0 then
        tileRows unpacked rsB csB
          (sumUnit (reorderBlksz table groupSize k).KC groupSize k) v j strip
      else 0 := by
  have elsewhere (base : Nat) :
      (tileCalls (reorderBlksz table groupSize k) (compactWeightBytes n k)
          groupSize n k { strip with off := base }).map
          (callWrites (reorderBlksz table groupSize k) rsB csB unpacked) =
        (tileCalls (reorderBlksz table groupSize k) (compactWeightBytes n k)
          groupSize n k strip).map
          (callWrites (reorderBlksz table groupSize k) rsB csB unpacked) := by
    unfold tileCalls
    simp only [List.map_flatMap, List.map_map]
    rfl
  have added := congrArg
    (fun writes => (writes.map fun calls =>
      addedAt calls (compactWeightBytes n k +
        4 * (v * dlpMakeMultipleOfN n 16 + j))).sum)
    (elsewhere (workId * stripStride (reorderBlksz table groupSize k)))
  simp only [List.map_map, Function.comp_def] at added
  rw [← tileCalls_added legal (compactWeightBytes n k) unpacked
    isStrip.placed column, ← added,
    ← stripCalls_eq _ _ isStrip.placed.nonempty isStrip.narrow]
  simp only [stripOps, List.map_append, List.map_cons, List.map_nil,
    List.map_map, List.sum_append, List.sum_cons, List.sum_nil, opWrites,
    Function.comp_def, addedAt, zero_add, add_zero]

/-- What the actions for the strips of one tile add. -/
theorem tileOps_added (legal : GroupLegal table groupSize k)
    (unpacked : Bytes) {tile : Tile}
    (isStrip : ∀ strip,
      strip ∈ stripTiles (s8Blocks (reorderBlksz table groupSize k)) tile →
        IsStrip legal n strip)
    (workId : Nat) {v j : Nat} (column : j < dlpMakeMultipleOfN n 16) :
    (((stripTiles (s8Blocks (reorderBlksz table groupSize k)) tile).flatMap
        (stripOps (reorderBlksz table groupSize k) groupSize n k
          workId)).map fun op =>
          addedAt
            (opWrites (reorderBlksz table groupSize k) rsB csB unpacked op)
            (compactWeightBytes n k +
              4 * (v * dlpMakeMultipleOfN n 16 + j))).sum =
      if tile.jc ≤ j ∧ j < tile.jc + tile.nc0 then
        tileRows unpacked rsB csB
          (sumUnit (reorderBlksz table groupSize k).KC groupSize k) v j tile
      else 0 := by
  have strips := sum_chain_has (stripTiles_chain legal.blksz.blocks tile) j
    (tileRows unpacked rsB csB
      (sumUnit (reorderBlksz table groupSize k).KC groupSize k) v j tile)
  rw [List.map_map] at strips
  rw [← strips, sum_map_flatMap]
  congr 1
  apply List.map_congr_left
  intro strip inStrips
  rw [stripOps_added legal unpacked (isStrip strip inStrips) workId column]
  rcases List.mem_map.mp inStrips with ⟨piece, _, rfl⟩
  rfl

/-- Each word of the fused reorder is the sum of its column over its unit of
rows; the words of padding columns stay zero. -/
theorem fused_words (legal : GroupLegal table groupSize k)
    (schedule : Interleaved StripOp.workId
      (teamOps table groupSize n k (reorderThreads numThreads)))
    (b pool : Bytes) (buffer : ReorderBuffer) {v j : Nat}
    (vector : v < dlpGemmSymQuantSumVectors
      (reorderBlksz table groupSize k).KC groupSize k)
    (column : j < dlpMakeMultipleOfN n 16) :
    (dlpReorderbNr64S8s4s32o32 rsB csB schedule b pool buffer).words
        (compactWeightBytes n k + 4 * (v * dlpMakeMultipleOfN n 16 + j)) =
      if j < n then
        unitSum (nibbleAt b) (packerRs rsB csB) csB k
          (sumUnit (reorderBlksz table groupSize k).KC groupSize k) v j
      else 0 := by
  unfold dlpReorderbNr64S8s4s32o32
  dsimp only
  rw [fusedWords_eq_addAll, addAll_apply, fusedStart]
  dsimp only
  rw [clearWords_apply (sumCell_lt vector column), zero_add,
    addedAt_perm (schedule.perm.flatMap_right _), addedAt, sum_map_flatMap,
    teamOps, sum_map_flatMap,
    ← teamRows_sum legal.blksz.blocks (reorderThreads_pos numThreads),
    teamTiles, sum_map_flatMap]
  congr 1
  apply List.map_congr_left
  intro workId inTeam
  unfold threadOps
  rw [sum_map_flatMap]
  congr 1
  apply List.map_congr_left
  intro tile inRange
  exact tileOps_added legal (nibbleAt b)
    (fun strip inStrips => threadStrips_isStrip legal
      (List.mem_range.mp inTeam)
      (List.mem_flatMap.mpr ⟨tile, inRange, inStrips⟩)) workId column

end Team

end AoclDlp.Quant.S4Reorder
