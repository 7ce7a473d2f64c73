import AoclDlp.Jit.S8Frame

/-!
# The product from generated code

A run of the team on a reordered B is a sequence of kernel operations.  When
each of them executes generated code on memory, memory represents the output of
the model behind every operation, and behind a complete run the product.  The
rows of A are contiguous, the output is int32 without post-operations, and the
kernels are those of a tile with room for B and an unrolled K loop.
-/

namespace AoclDlp.Jit.S8Product

open AoclDlp.Foundations.Lanes
open AoclDlp.Foundations.Memory
open AoclDlp.Foundations.RoundBarrier
open AoclDlp.Foundations.Rounding
open AoclDlp.Gemm.Cells
open AoclDlp.Gemm.EndToEnd
open AoclDlp.Gemm.PackContents
open AoclDlp.Gemm.PackProtocol
open AoclDlp.Gemm.Rounds
open AoclDlp.Gemm.Rowvar
open AoclDlp.Jit.S8Execute
open AoclDlp.Jit.S8Frame
open AoclDlp.Jit.S8Generator
open AoclDlp.Layout.Panel
open AoclDlp.Layout.ReorderRef
open AoclDlp.Layout.S8s8s32
open AoclDlp.Layout.TeamTiles
open AoclDlp.Threading.TaskRange
open AoclDlp.Threading.WorkPartition

variable {args : GemmArgs} {b : Bytes} {rsB csB : Nat}

/-! ## The rows behind the last one -/

section Padding

variable (legal : S8Legal args.blksz) {n k : Nat}

theorem multiple_eq_roundUp (value : Nat) :
    dlpMakeMultipleOfN value 4 = roundUp value 4 :=
  rfl

theorem roundUp_idem (value : Nat) :
    roundUp (roundUp value 4) 4 = roundUp value 4 :=
  roundUp_of_dvd (by decide) (dvd_roundUp value 4)

/-- The grid of the image does not see whether the rows are padded. -/
theorem imageGrid_padded :
    imageGrid legal.blocks n (roundUp k 4) = imageGrid legal.blocks n k := by
  unfold imageGrid
  congr 1
  exact roundUp_idem k

theorem slotOf_padded (p j : Nat) :
    slotOf legal.blocks n (roundUp k 4) p j = slotOf legal.blocks n k p j := by
  unfold slotOf
  rw [imageGrid_padded legal]

/-- A tile with its padding is a tile of the padded matrix. -/
theorem placed_padded {tile : Tile} (placed : tile.Placed legal.blocks n k) :
    ({ tile with kc0 := roundUp tile.kc0 4 } : Tile).Placed legal.blocks n
      (roundUp k 4) where
  aligned := placed.aligned
  nonempty := placed.nonempty
  row_dvd := placed.row_dvd
  row_lt := placed.row_lt.trans_le (le_roundUp (by decide) k)
  kc0_eq := placed.height_eq.trans (min_comm _ _)
  ends := placed.ends
  inPanel := placed.inPanel
  off_eq := by
    rw [imageGrid_padded legal]
    exact placed.off_eq

/-- A call reads zeros behind its last row. -/
theorem strip_padded {numThreads : Int}
    (schedule : Schedule (s8Blocks args.blksz)
      (s8Shape args.n args.k rsB csB) (reorderThreads numThreads))
    (buffer : ReorderBuffer) {call : KernelCall} {tile : Tile}
    (origin : FromTile args.blksz legal args.n args.k call tile) {r j : Nat}
    (after : call.kc0 ≤ r) (before : r < dlpMakeMultipleOfN call.kc0 4)
    (column : j < call.nr0) :
    (dlpReorderbS8s8s32o32 schedule b buffer).image
      (args.stripAddress call r j) = 0 := by
  have padded := placed_padded legal origin.placed
  let longer : KernelCall := { call with kc0 := roundUp call.kc0 4 }
  have same : args.stripAddress longer r j = args.stripAddress call r j := by
    unfold GemmArgs.stripAddress
    simp only [longer, multiple_eq_roundUp, roundUp_idem]
  have slot := @stripAddress_eq_slotOf args legal _ _ _ padded longer
    origin.jr_dvd origin.jr_lt origin.nr0
    (by simp only [longer, origin.kc0])
    (by simpa only [multiple_eq_roundUp, roundUp_idem] using origin.bAddress)
    r j before column
  have inRows : call.pc + r < roundUp args.k 4 := by
    have rows := padded.kc0_eq
    have start := padded.row_lt
    simp only at rows start
    rw [multiple_eq_roundUp, origin.kc0] at before
    rw [origin.pc]
    omega
  have past : args.k ≤ call.pc + r := by
    rw [origin.pc]
    rw [origin.kc0] at after
    rw [multiple_eq_roundUp, origin.kc0] at before
    have rows := origin.placed.kc0_eq
    have start := origin.placed.row_lt
    rcases Nat.lt_or_ge (args.k - tile.pc) args.blksz.KC with last | inner
    · have short : tile.kc0 = args.k - tile.pc :=
        rows.trans (min_eq_left last.le)
      omega
    · have whole : tile.kc0 = args.blksz.KC := rows.trans (min_eq_right inner)
      rw [whole, roundUp_of_dvd (by decide) legal.KC_dvd] at before
      omega
  have inColumns : call.jc + call.jr + j < args.n := by
    have fits := origin.placed.column_end_le
    have width := origin.nr0
    have inside := origin.jr_lt
    rw [origin.jc]
    omega
  simp only [same, ← origin.pc, ← origin.jc, longer] at slot
  rw [slot, image_eq_reference]
  refine reorderb_padding legal.blocks (reorderThreads_pos numThreads)
    Nat.one_pos schedule b buffer.image ?_ ?_
  · have below := slotOf_lt legal.blocks inRows inColumns
    have rows : roundUp (roundUp args.k 4) (s8Blocks args.blksz).kFactor =
        roundUp args.k (s8Blocks args.blksz).kFactor := roundUp_idem args.k
    rw [rows] at below
    exact (Nat.div_one _).trans_lt below
  · intro p j' row column' equal
    have equal : slotOf legal.blocks args.n (roundUp args.k 4) p j' =
        slotOf legal.blocks args.n (roundUp args.k 4) (call.pc + r)
          (call.jc + call.jr + j) :=
      (slotOf_padded legal p j').trans (equal.trans (Nat.div_one _))
    have inPadded : p < roundUp args.k 4 :=
      Nat.lt_of_lt_of_le row (le_roundUp (by decide) args.k)
    have rows := (slotOf_injective legal.blocks inPadded column' inRows
      inColumns equal).1
    change p < args.k at row
    omega

end Padding

/-! ## The calls of a run -/

section Calls

variable {call : KernelCall} {tid : Nat}

/-- The rows of a call. -/
theorem call_rows (positive : 0 < args.blksz.MC)
    (member : call ∈ dlpGemmRowvarS8s8s32o32 args.blksz args.m args.n args.k
      (args.thread tid)) :
    0 < call.mc0 ∧ call.ic + call.mc0 ≤ args.m := by
  rcases List.mem_flatMap.mp member with ⟨step, _, inRows⟩
  rcases List.mem_flatMap.mp inRows with ⟨row, _, inIc⟩
  rcases List.mem_flatMap.mp inIc with ⟨ic, icMember, inJr⟩
  rcases jrLoop_mem (dvd_zero args.blksz.NR) inJr with ⟨_, _, shape⟩
  rcases pcLoop_bounds icMember with ⟨_, below, width⟩
  have range := (dlpThreadTaskRange_bounds (args.threadIc tid) args.m
    args.blksz.MR).2
  change (gemmIcRange (args.thread tid) args.m args.blksz.MR).2 ≤ _ at range
  rw [shape]
  dsimp only
  omega

/-- A call on the buffer of a reorder stays inside the operands. -/
theorem within_of_member (legal : S8Legal args.blksz)
    (positive : 0 < args.blksz.MC) {numThreads : Int}
    (schedule : Schedule (s8Blocks args.blksz)
      (s8Shape args.n args.k rsB csB) (reorderThreads numThreads))
    (buffer : ReorderBuffer)
    (member : call ∈ dlpGemmRowvarS8s8s32o32 args.blksz args.m args.n args.k
      (args.thread tid)) :
    CallWithin args (element b rsB csB)
      (dlpReorderbS8s8s32o32 schedule b buffer) call := by
  rcases exists_fromTile legal _ member with ⟨tile, origin⟩
  have rows := call_rows positive member
  have width := origin.nr0
  have inside := origin.jr_lt
  have fits := origin.placed.column_end_le
  have panel := legal.NR_pos
  have strip := origin.placed.strip origin.jr_dvd origin.jr_lt
  have shape : tile.slice (s8Blocks args.blksz) call.jr
      (call.jr + min (tile.nc0 - call.jr) args.blksz.NR) =
        ⟨call.jc + call.jr, call.nr0, call.pc, call.kc0, call.bAddress⟩ := by
    unfold Tile.slice
    rw [Nat.add_sub_cancel_left, ← width, origin.jc, origin.pc, origin.kc0,
      origin.bAddress]
    rfl
  change (tile.slice (s8Blocks args.blksz) call.jr
    (call.jr + min (tile.nc0 - call.jr) args.blksz.NR)).Placed _ _ _ at strip
  rw [shape] at strip
  have columns : 0 < call.nr0 := by omega
  have depth : 0 < call.kc0 := strip.kc0_pos
  refine
    { rows_pos := rows.1
      columns_pos := columns
      depth_pos := depth
      rows := rows.2
      columns := strip.column_end_le
      depth := ?_
      step := strip.row_dvd
      width := width.trans_le (min_le_right _ _)
      strip := ?_
      sums := origin.columnSum_address
      sumsFit := ?_
      reads := reordered_reads legal schedule buffer _ member
      padded := fun r after before j column =>
        strip_padded legal schedule buffer origin after before column }
  · have block := strip.kc0_eq
    have start := strip.row_lt
    simp only at block start
    omega
  · have last : Region (s8Blocks args.blksz)
        ⟨call.jc + call.jr, call.nr0, call.pc, call.kc0, call.bAddress⟩
        (call.bAddress + (dlpMakeMultipleOfN call.nr0 16 *
          dlpMakeMultipleOfN call.kc0 4 - 1)) := by
      have some : 0 < dlpMakeMultipleOfN call.nr0 16 *
          dlpMakeMultipleOfN call.kc0 4 :=
        Nat.mul_pos (roundUp_pos (by decide) columns)
          (roundUp_pos (by decide) depth)
      refine ⟨Nat.le_add_right _ _, Nat.add_lt_add_left ?_ _⟩
      exact Nat.sub_lt some Nat.one_pos
    have below := region_lt strip last
    change _ < packBColumnSum args.n args.k at below
    omega
  · have ends := strip.padded_end_eq
    simp only at ends
    change call.jc + call.jr + roundUp call.nr0 16 ≤ roundUp args.n 16
    change call.jc + call.jr + roundUp call.nr0 16 = _ at ends
    rw [ends]
    exact roundUp_le_of_dvd (Nat.succ_pos 15) (dvd_roundUp args.n 16)
      (strip.column_end_le.trans (le_roundUp (by decide) args.n))

end Calls

/-! ## Runs on memory -/

/-- An operation of a thread on memory; a team that multiplies a reordered B
has only kernel operations. -/
def ExecutesOp (jit : JitAmdZenS8) (kernelCodeBlocks : List Emitted)
    (args : GemmArgs) (place : Placement) (tid : Nat) (before after : Memory) :
    GemmOp → Prop
  | .kernel _ call =>
      ExecutesCall jit kernelCodeBlocks args place tid call before after
  | .publish | .receive | .clear _ _ _ _ | .pack _ _ _ _ | .free =>
      after = before

/-- The operations of a run, one after the other. -/
def ExecutesLog (jit : JitAmdZenS8) (kernelCodeBlocks : List Emitted)
    (args : GemmArgs) (place : Placement) :
    List (Event GemmOp) → Memory → Memory → Prop
  | [], before, after => after = before
  | event :: rest, before, after =>
      ∃ middle,
        ExecutesOp jit kernelCodeBlocks args place event.thread before middle
          event.act ∧
        ExecutesLog jit kernelCodeBlocks args place rest middle after

section Runs

variable {jit : JitAmdZenS8} {kernelCodeBlocks : List Emitted}
variable {place : Placement} {memory : Memory} {c : Nat → BitVec 32}

theorem ExecutesLog.snoc {log : List (Event GemmOp)} {event : Event GemmOp}
    {before middle after : Memory}
    (runs : ExecutesLog jit kernelCodeBlocks args place log before middle)
    (last : ExecutesOp jit kernelCodeBlocks args place event.thread middle
      after event.act) :
    ExecutesLog jit kernelCodeBlocks args place (log ++ [event]) before
      after := by
  induction log generalizing before with
  | nil =>
      have same : middle = before := runs
      exact ⟨after, same ▸ last, rfl⟩
  | cons first rest ih =>
      rcases runs with ⟨next, step, others⟩
      exact ⟨next, step, ih others⟩

/-- The operands of a run on memory, with contiguous rows of A, and the
kernels that its calls execute. -/
structure OnMemory (args : GemmArgs) (jit : JitAmdZenS8)
    (kernelCodeBlocks : List Emitted) (place : Placement) : Prop where
  generates : Generates args jit kernelCodeBlocks
  separated : Separated args place
  contiguous : args.csA = 1
  small : args.k < 2 ^ 64

/-- The operations of a team on a reordered B are its kernel calls. -/
theorem kernel_of_pends {buffer : ReorderBuffer}
    (operand : args.b = .reordered buffer) {state : State GemmOp}
    (reachable : args.team.machine.Reachable state) {tid : Nat} {op : GemmOp}
    (inTeam : tid < args.team.count) (pends : (state.cursor tid).Pends op) :
    ∃ call, op = .kernel 0 call ∧
      call ∈ dlpGemmRowvarS8s8s32o32 args.blksz args.m args.n args.k
        (args.thread tid) := by
  have inProgram := (Team.inv_of_reachable reachable).pends_mem inTeam pends
  rcases mem_eventsFrom.mp inProgram with ⟨-, -, segment, found, member⟩
  change (args.program tid)[_]? = some segment at found
  unfold GemmArgs.program at found
  rw [operand] at found
  rw [List.mem_singleton.mp (List.mem_of_getElem? found)] at member
  rcases List.mem_map.mp member with ⟨call, inCalls, same⟩
  exact ⟨call, same.symm, inCalls⟩

/-- Behind every operation of a run, memory represents the output of the
model, and only the output and the scalars of the threads have changed. -/
theorem executesLog_of_reachable (loop : FiveLoop args)
    (machine : OnMemory args jit kernelCodeBlocks place) {numThreads : Int}
    (schedule : Schedule (s8Blocks args.blksz)
      (s8Shape args.n args.k rsB csB) (reorderThreads numThreads))
    {buffer : ReorderBuffer}
    (operand : args.b = .reordered (dlpReorderbS8s8s32o32 schedule b buffer))
    (represents : Represents args (dlpReorderbS8s8s32o32 schedule b buffer)
      place memory c) (heap : Nat → ReorderBuffer) {state : State GemmOp}
    (reachable : args.team.machine.Reachable state) :
    ∃ after,
      ExecutesLog jit kernelCodeBlocks args place state.log memory after ∧
      Represents args (dlpReorderbS8s8s32o32 schedule b buffer) place after
        (args.memoryAfter state.log (GemmMemory.start heap c)).c ∧
      ∀ address, ¬ OutputAt args place address →
        (∀ tid < args.team.count, ¬ Beta0At place tid address) →
          after address = memory address := by
  induction reachable with
  | init start =>
      have same : _ = args.team.initial := start
      rw [same]
      exact ⟨memory, rfl, represents, fun _ _ _ => rfl⟩
  | @step state next before step ih =>
      cases step with
      | @run tid op rest inTeam todo =>
          rcases ih with ⟨middle, runs, holds, kept⟩
          rcases kernel_of_pends operand before inTeam ⟨rest, todo⟩ with
            ⟨call, rfl, member⟩
          have within : CallWithin args (element b rsB csB) _ call :=
            within_of_member loop.blocks loop.MC_pos schedule buffer member
          rcases executesCall_refines inTeam machine.generates machine.separated
              machine.contiguous loop.ldc loop.blocks.NR_dvd machine.small
              within holds with ⟨after, executes, output, frame⟩
          refine ⟨after, runs.snoc executes, ?_, ?_⟩
          · change Represents args _ place after
              (args.memoryAfter (_ ++ [_]) _).c
            rw [memoryAfter_append]
            unfold GemmArgs.exec GemmArgs.kernelBuffer
            rw [operand]
            exact output
          · intro address outside scalars
            rw [frame address outside (scalars tid inTeam)]
            exact kept address outside scalars
      | pass _ _ _ _ => exact ih

end Runs

/-! ## A small product -/

/-- A signed product with two `pc` steps and a fringe column, on four
threads. -/
def smallArgs (buffer : ReorderBuffer) : GemmArgs where
  m := 3
  n := 17
  k := 5
  a := fun address => UInt8.ofNat (250 - 9 * address)
  rsA := 5
  csA := 1
  b := .reordered buffer
  rsC := 17
  alpha := 3
  beta := 2
  blksz := ⟨2, 32, 4, 2, 16⟩
  icWays := 2
  jcWays := 2

/-- The reorder of its B by a team of two. -/
def smallBuffer : ReorderBuffer :=
  dlpReorderbS8s8s32o32
    (Schedule.inOrder (s8Blocks ⟨2, 32, 4, 2, 16⟩) (s8Shape 17 5 17 1)
      (reorderThreads 2))
    (fun address => UInt8.ofNat (7 * address)) ⟨fun _ => 1, fun _ => 2⟩

/-- Its operands, page by page. -/
def smallPlacement : Placement where
  a := BitVec.ofNat 64 0x1000
  buffer := BitVec.ofNat 64 0x2000
  c := BitVec.ofNat 64 0x4000
  alpha tid := BitVec.ofNat 64 (0x3000 + 64 * tid)
  beta0 tid := BitVec.ofNat 64 (0x5000 + 64 * tid)
  rsBUse := 64

/-- The place of an address within its aligned word. -/
def wordPlace (place : Nat) : Fin 4 :=
  ⟨place % 4, Nat.mod_lt place (by decide)⟩

/-- A byte of memory with these operands, and an output of sevens. -/
def smallByte (place : Nat) : BitVec 8 :=
  if place < 0x2000 then
    (UInt8.ofNat (250 - 9 * (place - 0x1000))).toBitVec
  else if place < 0x2100 then (smallBuffer.image (place - 0x2000)).toBitVec
  else if place < 0x3000 then
    byteOf (smallBuffer.words (256 + (place - 0x2100) / 4 * 4))
      (wordPlace place)
  else if place < 0x4000 then byteOf 3 (wordPlace place)
  else byteOf 7 (wordPlace place)

def smallMemory : Memory := fun address =>
  some (smallByte address.toNat)

theorem offset_toNat {base index : Nat} (small : base + index < 2 ^ 64) :
    (offset (BitVec.ofNat 64 base) index).toNat = base + index := by
  rw [offset, BitVec.toNat_add, BitVec.toNat_ofNat, BitVec.toNat_ofNat,
    ← Nat.add_mod]
  exact Nat.mod_eq_of_lt small

theorem smallMemory_offset {base index : Nat}
    (small : base + index < 2 ^ 64) :
    smallMemory (offset (BitVec.ofNat 64 base) index) =
      some (smallByte (base + index)) := by
  rw [smallMemory, offset_toNat small]

theorem small_represents :
    Represents (smallArgs smallBuffer) smallBuffer smallPlacement smallMemory
      fun _ => 7 where
  a i row p column := by
    change i < 3 at row
    change p < 5 at column
    change smallMemory (offset (BitVec.ofNat 64 0x1000) (5 * i + 1 * p)) = _
    rw [smallMemory_offset (by omega), smallByte, if_pos (by omega),
      Nat.add_sub_cancel_left]
    rfl
  image p below := by
    change p < 256 at below
    change smallMemory (offset (BitVec.ofNat 64 0x2000) p) = _
    rw [smallMemory_offset (by omega), smallByte, if_neg (by omega),
      if_pos (by omega), Nat.add_sub_cancel_left]
  words j below byte := by
    change j < 32 at below
    have place := byte.isLt
    change smallMemory (offset (offset (BitVec.ofNat 64 0x2000)
      (256 + 4 * j)) byte) = _
    have word : (0x2000 + (256 + 4 * j + byte.val) - 0x2100) / 4 * 4 =
        4 * j := by omega
    have low : wordPlace (0x2000 + (256 + 4 * j + byte.val)) = byte :=
      Fin.ext (by simp only [wordPlace]; omega)
    rw [offset_offset, smallMemory_offset (by omega), smallByte,
      if_neg (by omega), if_neg (by omega), if_pos (by omega), word, low]
    rfl
  alpha tid inTeam byte := by
    have place := byte.isLt
    change tid < 4 at inTeam
    change smallMemory (offset (BitVec.ofNat 64 (0x3000 + 64 * tid)) byte) =
      _
    have low : wordPlace (0x3000 + 64 * tid + byte.val) = byte :=
      Fin.ext (by simp only [wordPlace]; omega)
    rw [smallMemory_offset (by omega), smallByte, if_neg (by omega),
      if_neg (by omega), if_neg (by omega), if_pos (by omega), low]
    rfl
  c i row j column byte := by
    change i < 3 at row
    change j < 17 at column
    have place := byte.isLt
    change smallMemory (offset (offset (BitVec.ofNat 64 0x4000)
      (4 * (17 * i + j))) byte) = _
    have low : wordPlace (0x4000 + (4 * (17 * i + j) + byte.val)) = byte :=
      Fin.ext (by simp only [wordPlace]; omega)
    rw [offset_offset, smallMemory_offset (by omega), smallByte,
      if_neg (by omega), if_neg (by omega), if_neg (by omega),
      if_neg (by omega), low]

theorem small_operand {address : BitVec 64}
    (operand : OperandAt (smallArgs smallBuffer) smallPlacement address) :
    address.toNat < 0x4000 := by
  rcases operand with ⟨i, row, p, column, rfl⟩ | ⟨byte, below, rfl⟩ |
    ⟨tid, inTeam, byte, rfl⟩
  · change i < 3 at row
    change p < 5 at column
    change (offset (BitVec.ofNat 64 0x1000) (5 * i + 1 * p)).toNat < _
    rw [offset_toNat (by omega)]
    omega
  · change byte < 384 at below
    change (offset (BitVec.ofNat 64 0x2000) byte).toNat < _
    rw [offset_toNat (by omega)]
    omega
  · have place := byte.isLt
    change tid < 4 at inTeam
    change (offset (BitVec.ofNat 64 (0x3000 + 64 * tid)) byte).toNat < _
    rw [offset_toNat (by omega)]
    omega

theorem small_output {address : BitVec 64}
    (output : OutputAt (smallArgs smallBuffer) smallPlacement address) :
    0x4000 ≤ address.toNat ∧ address.toNat < 0x5000 := by
  rcases output with ⟨i, row, j, column, byte, rfl⟩
  have place := byte.isLt
  change i < 3 at row
  change j < 17 at column
  change 0x4000 ≤ (offset (BitVec.ofNat 64 0x4000)
    (4 * (17 * i + j) + byte)).toNat ∧ (offset (BitVec.ofNat 64 0x4000)
    (4 * (17 * i + j) + byte)).toNat < _
  rw [offset_toNat (by omega)]
  omega

theorem small_separated :
    Separated (smallArgs smallBuffer) smallPlacement where
  nonnull := by decide
  extent := by decide
  operands address operand output := by
    have below := small_operand operand
    have above := small_output output
    omega
  scalars tid inTeam address scalar := by
    rcases scalar with ⟨byte, rfl⟩
    change tid < 4 at inTeam
    have place := byte.isLt
    have number : (offset (smallPlacement.beta0 tid) byte).toNat =
        0x5000 + 64 * tid + byte := offset_toNat (by omega)
    constructor
    · intro operand
      have below := small_operand operand
      omega
    · intro output
      have below := small_output output
      omega

/-- The generator of its blocking, specialised as `getScalingTypes` says. -/
def smallJit : JitAmdZenS8 where
  MR := 2
  NR := 16
  kUnroll := 2
  alphaScalingType := .generic
  betaScalingType := .generic

end AoclDlp.Jit.S8Product
