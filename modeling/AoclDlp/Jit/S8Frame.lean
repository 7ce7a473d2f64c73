import AoclDlp.Gemm.EndToEnd
import AoclDlp.Jit.S8Block

/-!
# Kernel calls of the five-loop on memory

`dlp_execute_kernel` hands the operands of a kernel call to `executeKernel`.
The operands are bytes of memory: A, the reorder buffer with its column sums,
the output, and for each thread its copy of alpha and its `beta0`.  A call of
the generated code does to the output in memory what the kernel operation of
the five-loop does to the output of the model, for an A of contiguous rows, an
int32 output without post-operations, and a tile with room for B whose K loop
is unrolled.
-/

namespace AoclDlp.Jit.S8Frame

open AoclDlp.DecisionEngine.Scaling
open AoclDlp.Foundations.Assembly
open AoclDlp.Foundations.Avx512
open AoclDlp.Foundations.Lanes
open AoclDlp.Foundations.Memory
open AoclDlp.Foundations.Rounding
open AoclDlp.Gemm.Cells
open AoclDlp.Gemm.Rowvar
open AoclDlp.Jit.S8Block
open AoclDlp.Jit.S8Call
open AoclDlp.Jit.S8Elements
open AoclDlp.Jit.S8Execute
open AoclDlp.Jit.S8Generator
open AoclDlp.Jit.S8Step
open AoclDlp.Layout.Chunk
open AoclDlp.Layout.S8s8s32

/-! ## The call -/

/-- Where the operands of `dlp_gemm_rowvar_s8s8s32o32` are, and the row stride
of packed B.  Each thread has its own copy of the parameter alpha and its own
`beta0`. -/
structure Placement where
  a : BitVec 64
  buffer : BitVec 64
  c : BitVec 64
  alpha : Nat → BitVec 64
  beta0 : Nat → BitVec 64
  rsBUse : BitVec 64

/-- `gemmParams`, as `dlp_execute_kernel` constructs it for a call of a
thread. -/
def gemmParams (args : GemmArgs) (place : Placement) (tid : Nat)
    (call : KernelCall) : GemmParams → BitVec 64
  | .a => offset place.a (args.rsA * call.ic + args.csA * call.pc)
  | .b => offset place.buffer call.bAddress
  | .c => offset place.c (4 * (call.jc + args.rsC * call.ic + call.jr))
  | .rsA | .psA => BitVec.ofNat 64 args.rsA
  | .csA => 4
  | .rsB => place.rsBUse
  | .rsC => BitVec.ofNat 64 args.rsC
  | .alpha => place.alpha tid
  | .beta => place.beta0 tid
  | .isLastK => if args.IsLastK call.pc then 1 else 0
  | .bColSumVec => offset place.buffer call.bColSumVec
  | .bSumOffset => BitVec.ofNat 64 call.bSumOffset
  | .postOpCI => BitVec.ofNat 64 call.ic
  | .mIter | .kIterBP | .kLeft | .kLeftIter | .kLeftRem | .kLeftmask
  | .maskS32 => 0

/-- `dlp_execute_kernel`, whatever the registers hold. -/
def DlpExecuteKernel (jit : JitAmdZenS8) (kernelCodeBlocks : List Emitted)
    (args : GemmArgs) (place : Placement) (tid : Nat) (call : KernelCall)
    (before after : Memory) : Prop :=
  ∀ state : State, state.field = gemmParams args place tid call →
    state.memory = before →
      ∃ final, jit.ExecuteKernel kernelCodeBlocks call.mc0 call.nr0 call.kc0
        state final ∧ final.memory = after

/-- Store a doubleword. -/
def storeDword (address : BitVec 64) (word : BitVec 32) (memory : Memory) :
    Memory :=
  fun place =>
    if inside : (place - address).toNat < 4 then
      some (byteOf word ⟨(place - address).toNat, inside⟩)
    else memory place

/-- The frame's `beta0`, and the call behind it. -/
def ExecutesCall (jit : JitAmdZenS8) (kernelCodeBlocks : List Emitted)
    (args : GemmArgs) (place : Placement) (tid : Nat) (call : KernelCall)
    (before after : Memory) : Prop :=
  DlpExecuteKernel jit kernelCodeBlocks args place tid call
    (storeDword (place.beta0 tid) (args.beta0 call.pc) before) after

/-! ## Operands in memory -/

/-- Bytes of a reorder buffer with its column sums. -/
def bufferSize (args : GemmArgs) : Nat :=
  packBColumnSum args.n args.k + 4 * dlpMakeMultipleOfN args.n 16

/-- A byte of an operand that the team only reads. -/
def OperandAt (args : GemmArgs) (place : Placement) (address : BitVec 64) :
    Prop :=
  (∃ i < args.m, ∃ p < args.k,
    address = offset place.a (args.rsA * i + args.csA * p)) ∨
  (∃ byte < bufferSize args, address = offset place.buffer byte) ∨
  ∃ tid < args.team.count, ∃ byte : Fin 4,
    address = offset (place.alpha tid) byte

/-- A byte of the output. -/
def OutputAt (args : GemmArgs) (place : Placement) (address : BitVec 64) :
    Prop :=
  ∃ i < args.m, ∃ j < args.n, ∃ byte : Fin 4,
    address = offset place.c (4 * (args.rsC * i + j) + byte)

/-- A byte of the `beta0` of a thread. -/
def Beta0At (place : Placement) (tid : Nat) (address : BitVec 64) : Prop :=
  ∃ byte : Fin 4, address = offset (place.beta0 tid) byte

/-- The output lies in the address space, apart from the operands, and the
scalars of the threads lie apart from both. -/
structure Separated (args : GemmArgs) (place : Placement) : Prop where
  nonnull : place.c ≠ 0
  extent : place.c.toNat + 4 * (args.rsC * (args.m - 1) + args.n) ≤ 2 ^ 64
  operands : ∀ address, OperandAt args place address →
    ¬ OutputAt args place address
  scalars : ∀ tid < args.team.count, ∀ address, Beta0At place tid address →
    ¬ OperandAt args place address ∧ ¬ OutputAt args place address

/-- Memory with the operands, and an output. -/
structure Represents (args : GemmArgs) (buffer : ReorderBuffer)
    (place : Placement) (memory : Memory) (c : Nat → BitVec 32) : Prop where
  a : ∀ i < args.m, ∀ p < args.k,
    memory (offset place.a (args.rsA * i + args.csA * p)) =
      some (args.a (args.rsA * i + args.csA * p)).toBitVec
  image : ∀ p < packBColumnSum args.n args.k,
    memory (offset place.buffer p) = some (buffer.image p).toBitVec
  words : ∀ j < dlpMakeMultipleOfN args.n 16,
    DwordAt memory
      (offset place.buffer (packBColumnSum args.n args.k + 4 * j))
      (buffer.words (packBColumnSum args.n args.k + 4 * j))
  alpha : ∀ tid < args.team.count,
    DwordAt memory (place.alpha tid) args.alpha
  c : ∀ i < args.m, ∀ j < args.n,
    DwordAt memory (offset place.c (4 * (args.rsC * i + j)))
      (c (args.rsC * i + j))

/-! ## The block of a call -/

/-- The block of C of a call. -/
def problemOf (args : GemmArgs) (buffer : ReorderBuffer) (place : Placement)
    (c : Nat → BitVec 32) (tid : Nat) (call : KernelCall) : Problem where
  m := call.mc0
  n := call.nr0
  k := call.kc0
  a i r := (args.a ((args.rsA * call.ic + args.csA * call.pc) +
    (args.rsA * i + args.csA * r))).toBitVec
  b p := (buffer.image (call.bAddress + p)).toBitVec
  sums j := buffer.words (call.bColSumVec + 4 * (call.bSumOffset + j))
  old i j := c (call.jc + args.rsC * call.ic + call.jr + (args.rsC * i + j))
  alpha := args.alpha
  beta := args.beta0 call.pc
  isLastK := decide (args.IsLastK call.pc)
  aPtr := offset place.a (args.rsA * call.ic + args.csA * call.pc)
  bPtr := offset place.buffer call.bAddress
  cPtr := offset place.c (4 * (call.jc + args.rsC * call.ic + call.jr))
  sumsPtr := offset place.buffer (call.bColSumVec + 4 * call.bSumOffset)
  alphaPtr := place.alpha tid
  betaPtr := place.beta0 tid
  rsA := args.rsA
  rsC := args.rsC

/-- A call inside the problem, with its strip in the buffer: it reads the
matrix, and zeros behind the last row. -/
structure CallWithin (args : GemmArgs) (bElement : Nat → Nat → BitVec 32)
    (buffer : ReorderBuffer) (call : KernelCall) : Prop where
  rows_pos : 0 < call.mc0
  columns_pos : 0 < call.nr0
  depth_pos : 0 < call.kc0
  rows : call.ic + call.mc0 ≤ args.m
  columns : call.jc + call.jr + call.nr0 ≤ args.n
  depth : call.pc + call.kc0 ≤ args.k
  step : args.blksz.KC ∣ call.pc
  width : call.nr0 ≤ args.blksz.NR
  strip : call.bAddress +
      dlpMakeMultipleOfN call.nr0 16 * dlpMakeMultipleOfN call.kc0 4 ≤
    packBColumnSum args.n args.k
  sums : call.bColSumVec + 4 * call.bSumOffset =
    packBColumnSum args.n args.k + 4 * (call.jc + call.jr)
  sumsFit : call.jc + call.jr + dlpMakeMultipleOfN call.nr0 16 ≤
    dlpMakeMultipleOfN args.n 16
  reads : ReadsMatrix args bElement buffer call
  padded : ∀ r, call.kc0 ≤ r → r < dlpMakeMultipleOfN call.kc0 4 →
    ∀ j < call.nr0, buffer.image (args.stripAddress call r j) = 0

section Elements

variable {args : GemmArgs} {buffer : ReorderBuffer} {place : Placement}
variable {c : Nat → BitVec 32} {tid : Nat} {call : KernelCall}

theorem makeMultiple_sixteen (count : Nat) :
    dlpMakeMultipleOfN count 16 = 16 * ((count + 15) / 16) :=
  Nat.mul_comm _ _

theorem makeMultiple_four (count : Nat) :
    dlpMakeMultipleOfN count 4 = 4 * ((count + 3) / 4) :=
  Nat.mul_comm _ _

/-- The chunk of a column of a call: the whole registers, or the rest. -/
theorem callChunk (dvd : 16 ∣ args.blksz.NR) (width : call.nr0 ≤ args.blksz.NR)
    {j : Nat} (column : j < call.nr0) :
    let whole := 16 * (call.nr0 / 16)
    chunkStart call.nr0 args.blksz.NR 16 j =
        (if j < whole then 0 else whole) ∧
      chunkSlot call.nr0 args.blksz.NR 16 j =
        if j < whole then whole else 16 := by
  intro whole
  have tail : blockStart call.nr0 16 = whole := Nat.mul_comm _ _
  rcases width.lt_or_eq with short | full
  · have none : blockStart call.nr0 args.blksz.NR = 0 := by
      rw [blockStart, Nat.div_eq_of_lt short, Nat.zero_mul]
    unfold chunkStart chunkSlot
    rw [none, tail, Nat.sub_zero, if_neg (Nat.not_lt_zero j),
      if_neg (Nat.not_lt_zero j)]
    exact ⟨rfl, rfl⟩
  · have positive : 0 < args.blksz.NR := by omega
    have all : blockStart call.nr0 args.blksz.NR = args.blksz.NR := by
      rw [blockStart, full, Nat.div_self positive, Nat.one_mul]
    have first : blockStart j args.blksz.NR = 0 := by
      rw [blockStart, Nat.div_eq_of_lt (full ▸ column), Nat.zero_mul]
    have registers : whole = args.blksz.NR := by
      rw [← full] at dvd ⊢
      exact Nat.mul_div_cancel' dvd
    have inside : j < args.blksz.NR := full ▸ column
    unfold chunkStart chunkSlot
    rw [all, first, registers]
    simp only [if_pos inside, and_self]

/-- The strip is read where the generated code looks for it. -/
theorem bAt_eq (dvd : 16 ∣ args.blksz.NR) (width : call.nr0 ≤ args.blksz.NR)
    {r j : Nat} (column : j < call.nr0) :
    (problemOf args buffer place c tid call).bAt r j =
      (buffer.image (args.stripAddress call r j)).toBitVec := by
  rcases callChunk dvd width column with ⟨start, slot⟩
  have whole : (problemOf args buffer place c tid call).wholeCols =
      16 * (call.nr0 / 16) := rfl
  have quads : (problemOf args buffer place c tid call).quads =
      (call.kc0 + 3) / 4 := rfl
  unfold Problem.bAt GemmArgs.stripAddress dlpReorderElemOffset
  rw [start, slot, whole, quads, makeMultiple_four]
  by_cases inside : j < 16 * (call.nr0 / 16)
  · simp only [if_pos inside, problemOf, Nat.sub_zero]
    congr 3
    ring
  · simp only [if_neg inside, problemOf]
    congr 3
    ring

/-- A byte, as the arithmetic of the model sees it. -/
theorem element_toBitVec (byte : UInt8) : S8Elements.element byte.toBitVec = widen byte :=
  rfl

variable {bElement : Nat → Nat → BitVec 32}

/-- What the generated code leaves in a cell is what the kernel operation
does to it. -/
theorem value_eq (dvd : 16 ∣ args.blksz.NR)
    (within : CallWithin args bElement buffer call) {i j : Nat}
    (column : j < call.nr0) :
    (problemOf args buffer place c tid call).value i j =
      cellChange args bElement (call.ic + i) (call.jc + call.jr + j)
        ⟨call.pc, call.kc0⟩
        (c (args.rsC * (call.ic + i) + (call.jc + call.jr + j))) := by
  have dot : dotProduct call.kc0
      ((problemOf args buffer place c tid call).a i)
      (fun r => (problemOf args buffer place c tid call).bAt r j) =
        ((List.range call.kc0).map fun kr =>
          (aElement args (call.ic + i) (call.pc + kr) + 128) *
            bElement (call.pc + kr) (call.jc + call.jr + j)).sum := by
    refine sumOver_congr fun kr below => ?_
    have entry : S8Elements.element
        ((problemOf args buffer place c tid call).a i kr) =
          aElement args (call.ic + i) (call.pc + kr) := by
      have address : args.rsA * call.ic + args.csA * call.pc +
          (args.rsA * i + args.csA * kr) =
            args.rsA * (call.ic + i) + args.csA * (call.pc + kr) := by ring
      rw [aElement, ← address]
      rfl
    beta_reduce
    rw [bAt_eq dvd within.width column, entry, element_toBitVec,
      within.reads.strip kr j below column]
  have sums : (if decide (args.IsLastK call.pc) then
        (problemOf args buffer place c tid call).sums j else 0) =
      if args.IsLastK call.pc then
        columnTotal args bElement (call.jc + call.jr + j)
      else 0 := by
    simp only [decide_eq_true_eq]
    split_ifs with last
    · exact within.reads.sums last j column
    · rfl
  have place : call.jc + args.rsC * call.ic + call.jr +
      (args.rsC * i + j) =
        args.rsC * (call.ic + i) + (call.jc + call.jr + j) := by ring
  unfold Problem.value cellChange
  rw [← sums, ← dot, ← place]
  rfl

/-- Behind the last row of the call, the strip is zero. -/
theorem padded_of_within (dvd : 16 ∣ args.blksz.NR)
    (within : CallWithin args bElement buffer call) :
    (problemOf args buffer place c tid call).Padded := by
  intro r after before j column
  change call.kc0 ≤ r at after
  change j < call.nr0 at column
  rw [bAt_eq dvd within.width column, within.padded r after ?_ j column]
  · rfl
  · rw [makeMultiple_four]
    exact before

end Elements

/-! ## Cells of the block and of the output -/

section Cells

variable {args : GemmArgs} {bElement : Nat → Nat → BitVec 32}
variable {buffer : ReorderBuffer} {place : Placement}
variable {c : Nat → BitVec 32} {tid : Nat} {call : KernelCall}
variable {memory : Memory}

/-- A cell of the block is a cell of the output. -/
theorem cell_eq (i j : Nat) :
    (problemOf args buffer place c tid call).cell i j =
      offset place.c
        (4 * (args.rsC * (call.ic + i) + (call.jc + call.jr + j))) := by
  unfold Problem.cell problemOf
  rw [offset_offset]
  congr 1
  ring

theorem outputAt_of_inBlock (within : CallWithin args bElement buffer call)
    {address : BitVec 64}
    (inBlock : (problemOf args buffer place c tid call).InBlock address) :
    OutputAt args place address := by
  rcases inBlock with ⟨i, inRow, j, inColumn, byte, rfl⟩
  change i < call.mc0 at inRow
  change j < call.nr0 at inColumn
  have rows := within.rows
  have columns := within.columns
  refine ⟨call.ic + i, by omega, call.jc + call.jr + j, by omega, byte, ?_⟩
  rw [cell_eq, offset_offset]

/-- An address of the output, as a number. -/
theorem output_toNat (apart : Separated args place) {i j : Nat}
    (row : i < args.m) (column : j < args.n) (byte : Fin 4) :
    (offset (offset place.c (4 * (args.rsC * i + j))) byte).toNat =
        place.c.toNat + (4 * (args.rsC * i + j) + byte) ∧
      place.c.toNat + (4 * (args.rsC * i + j) + byte) < 2 ^ 64 := by
  have extent := apart.extent
  have small := byte.isLt
  have rows : args.rsC * i ≤ args.rsC * (args.m - 1) :=
    Nat.mul_le_mul_left _ (by omega)
  have below : place.c.toNat + (4 * (args.rsC * i + j) + byte) <
      2 ^ 64 := by omega
  refine ⟨?_, below⟩
  rw [offset_offset, offset, BitVec.toNat_add, BitVec.toNat_ofNat,
    Nat.add_mod_mod]
  exact Nat.mod_eq_of_lt below

/-- Elements of the output do not overlap. -/
theorem output_inj (apart : Separated args place) (ldc : args.n ≤ args.rsC)
    {i j row column : Nat} {byte other : Fin 4} (inRow : i < args.m)
    (inColumn : j < args.n) (rowBelow : row < args.m)
    (columnBelow : column < args.n)
    (same : offset (offset place.c (4 * (args.rsC * i + j))) byte =
      offset (offset place.c (4 * (args.rsC * row + column))) other) :
    i = row ∧ j = column := by
  have numbers := congrArg BitVec.toNat same
  have first := byte.isLt
  have second := other.isLt
  rw [(output_toNat apart inRow inColumn byte).1,
    (output_toNat apart rowBelow columnBelow other).1] at numbers
  exact (cell_eq_iff ldc columnBelow inColumn).mp (by omega)

/-- The block of a call lies in the address space. -/
theorem cells_of_within (apart : Separated args place)
    (ldc : args.n ≤ args.rsC)
    (within : CallWithin args bElement buffer call) :
    (problemOf args buffer place c tid call).Cells := by
  have rows := within.rows_pos
  have columns := within.columns_pos
  have inRows := within.rows
  have inColumns := within.columns
  have first : call.jc + args.rsC * call.ic + call.jr =
      args.rsC * call.ic + (call.jc + call.jr) := by ring
  have base := output_toNat apart (show call.ic < args.m by omega)
    (show call.jc + call.jr < args.n by omega) 0
  rw [← first, Fin.val_zero, offset_zero, Nat.add_zero] at base
  have positive : 0 < place.c.toNat := by
    rcases Nat.eq_zero_or_pos place.c.toNat with none | some
    · exact absurd (BitVec.eq_of_toNat_eq none) apart.nonnull
    · exact some
  refine ⟨?_, ?_, ?_⟩
  · change call.nr0 ≤ args.rsC
    omega
  · intro null
    have number := congrArg BitVec.toNat null
    have zero : (0 : BitVec 64).toNat = 0 := rfl
    change (offset place.c _).toNat = _ at number
    rw [base.1, zero] at number
    omega
  · change (offset place.c _).toNat +
      4 * (args.rsC * (call.mc0 - 1) + call.nr0) ≤ _
    have extent := apart.extent
    have last : args.rsC * (call.ic + (call.mc0 - 1)) ≤
        args.rsC * (args.m - 1) := Nat.mul_le_mul_left _ (by omega)
    rw [Nat.mul_add] at last
    rw [base.1, first]
    omega

/-! ## Operands of the block -/

theorem storeDword_outside {address : BitVec 64} {word : BitVec 32}
    {other : BitVec 64} (outside : ∀ byte : Fin 4, other ≠ offset address byte) :
    storeDword address word memory other = memory other := by
  unfold storeDword
  refine dif_neg fun inside => outside ⟨_, inside⟩ ?_
  unfold offset
  rw [BitVec.ofNat_toNat, BitVec.setWidth_eq, BitVec.add_comm,
    BitVec.sub_add_cancel]

theorem storeDword_at (address : BitVec 64) (word : BitVec 32)
    (memory : Memory) :
    DwordAt (storeDword address word memory) address word := by
  intro byte
  have place : (offset address byte - address).toNat = byte :=
    offset_sub address (byte.isLt.trans (by decide))
  unfold storeDword
  simp only [place, byte.isLt, dite_true, Fin.eta]

theorem OperandAt.ofA {i p : Nat} (row : i < args.m) (column : p < args.k) :
    OperandAt args place (offset place.a (args.rsA * i + args.csA * p)) :=
  Or.inl ⟨i, row, p, column, rfl⟩

theorem OperandAt.ofBuffer {byte : Nat} (below : byte < bufferSize args) :
    OperandAt args place (offset place.buffer byte) :=
  Or.inr (Or.inl ⟨byte, below, rfl⟩)

theorem OperandAt.ofAlpha (inTeam : tid < args.team.count) (byte : Fin 4) :
    OperandAt args place (offset (place.alpha tid) byte) :=
  Or.inr (Or.inr ⟨tid, inTeam, byte, rfl⟩)

theorem OperandAt.ofSums {j : Nat} (below : j < dlpMakeMultipleOfN args.n 16)
    (byte : Fin 4) :
    OperandAt args place (offset (offset place.buffer
      (packBColumnSum args.n args.k + 4 * j)) byte) := by
  have small := byte.isLt
  rw [offset_offset]
  refine OperandAt.ofBuffer ?_
  unfold bufferSize
  omega

/-- Memory that agrees on the operands represents them. -/
theorem Represents.move (represents : Represents args buffer place memory c)
    {after : Memory} {next : Nat → BitVec 32}
    (operands : ∀ address, OperandAt args place address →
      after address = memory address)
    (output : ∀ i < args.m, ∀ j < args.n,
      DwordAt after (offset place.c (4 * (args.rsC * i + j)))
        (next (args.rsC * i + j))) :
    Represents args buffer place after next where
  a i row p column := by
    rw [operands _ (.ofA row column)]
    exact represents.a i row p column
  image p below := by
    have inside : p < bufferSize args := by
      unfold bufferSize
      omega
    rw [operands _ (.ofBuffer inside)]
    exact represents.image p below
  words j below byte := by
    rw [operands _ (.ofSums below byte)]
    exact represents.words j below byte
  alpha tid inTeam byte := by
    rw [operands _ (.ofAlpha inTeam byte)]
    exact represents.alpha tid inTeam byte
  c := output

/-- A store to the scalar of a thread leaves everything else. -/
theorem Represents.store (apart : Separated args place)
    (inTeam : tid < args.team.count)
    (represents : Represents args buffer place memory c) (word : BitVec 32) :
    Represents args buffer place (storeDword (place.beta0 tid) word memory)
      c := by
  refine represents.move ?_ ?_
  · intro address operand
    exact storeDword_outside fun byte same =>
      (apart.scalars tid inTeam address ⟨byte, same⟩).1 operand
  · intro i row j column byte
    rw [storeDword_outside]
    · exact represents.c i row j column byte
    · intro scalar same
      refine (apart.scalars tid inTeam _ ⟨scalar, rfl⟩).2
        ⟨i, row, j, column, byte, ?_⟩
      rw [← same, offset_offset]

/-- The operands of a call are in memory, outside its block. -/
theorem operands_of_represents (apart : Separated args place)
    (inTeam : tid < args.team.count) (contiguous : args.csA = 1)
    (within : CallWithin args bElement buffer call)
    (represents : Represents args buffer place memory c)
    (scalar : DwordAt memory (place.beta0 tid) (args.beta0 call.pc)) :
    (problemOf args buffer place c tid call).OperandsAt memory := by
  have outside {address : BitVec 64} (operand : OperandAt args place address) :
      ¬ (problemOf args buffer place c tid call).InBlock address :=
    fun inBlock => apart.operands address operand
      (outputAt_of_inBlock within inBlock)
  have depth := within.depth
  have rows := within.rows
  refine ⟨?_, ?_, ?_, ?_, ?_⟩
  · intro i row r column
    change i < call.mc0 at row
    change r < call.kc0 at column
    have address : offset (offset place.a (args.rsA * call.ic +
        args.csA * call.pc)) (args.rsA * i + r) =
          offset place.a (args.rsA * (call.ic + i) +
            args.csA * (call.pc + r)) := by
      rw [offset_offset, contiguous]
      congr 1
      ring
    have element : args.rsA * call.ic + args.csA * call.pc +
        (args.rsA * i + args.csA * r) =
          args.rsA * (call.ic + i) + args.csA * (call.pc + r) := by ring
    have inRow : call.ic + i < args.m := by omega
    have inColumn : call.pc + r < args.k := by omega
    change Problem.ByteAt _ memory
      (offset (offset place.a _) (args.rsA * i + r)) _
    rw [address]
    refine ⟨?_, outside (.ofA inRow inColumn)⟩
    simp only [problemOf, element]
    exact represents.a _ inRow _ inColumn
  · intro p below
    have bytes : 64 * ((call.kc0 + 3) / 4 * ((call.nr0 + 15) / 16)) =
        dlpMakeMultipleOfN call.nr0 16 * dlpMakeMultipleOfN call.kc0 4 := by
      rw [makeMultiple_sixteen, makeMultiple_four]
      ring
    have inside : call.bAddress + p < packBColumnSum args.n args.k := by
      have strip := within.strip
      change p < 64 * ((call.kc0 + 3) / 4 * ((call.nr0 + 15) / 16)) at below
      omega
    change Problem.ByteAt _ memory (offset (offset place.buffer _) _) _
    rw [offset_offset]
    refine ⟨represents.image _ inside, outside (.ofBuffer ?_)⟩
    unfold bufferSize
    omega
  · intro _ j below byte
    have column : call.jc + call.jr + j < dlpMakeMultipleOfN args.n 16 := by
      have fits := within.sumsFit
      change j < 16 * ((call.nr0 + 15) / 16) at below
      rw [makeMultiple_sixteen] at fits
      omega
    have address : call.bColSumVec + 4 * call.bSumOffset + 4 * j =
        packBColumnSum args.n args.k + 4 * (call.jc + call.jr + j) := by
      rw [within.sums]
      ring
    have word : call.bColSumVec + 4 * (call.bSumOffset + j) =
        packBColumnSum args.n args.k + 4 * (call.jc + call.jr + j) := by
      rw [← address]
      ring
    change Problem.ByteAt _ memory
      (offset (offset (offset place.buffer _) _) byte) _
    rw [offset_offset place.buffer, address]
    refine ⟨?_, outside (.ofSums column byte)⟩
    simp only [problemOf, word]
    exact represents.words _ column byte
  · intro byte
    exact ⟨represents.alpha tid inTeam byte, outside (.ofAlpha inTeam byte)⟩
  · intro byte
    refine ⟨scalar byte, fun inBlock => ?_⟩
    exact (apart.scalars tid inTeam _ ⟨byte, rfl⟩).2
      (outputAt_of_inBlock within inBlock)

/-! ## The output behind a call -/

/-- The memory of an updated block is determined. -/
theorem updated_unique {problem : Problem} {done : Nat → Nat → Prop}
    {start first second : Memory}
    (one : problem.Updated done start first)
    (two : problem.Updated done start second) : first = second := by
  funext address
  by_cases written : ∃ i < problem.m, ∃ j < problem.n, done i j ∧
      ∃ byte : Fin 4, address = offset (problem.cell i j) byte
  · rcases written with ⟨i, row, j, column, settled, byte, rfl⟩
    rw [one.written i row j column settled byte,
      two.written i row j column settled byte]
  · have outside : ∀ i < problem.m, ∀ j < problem.n, done i j →
        ∀ byte : Fin 4, address ≠ offset (problem.cell i j) byte :=
      fun i row j column settled byte same =>
        written ⟨i, row, j, column, settled, byte, same⟩
    rw [one.kept address outside, two.kept address outside]

/-- What a call does to the elements of its tile. -/
theorem changeAll_inside (ldc : args.n ≤ args.rsC)
    (within : CallWithin args bElement buffer call) {i j : Nat}
    (column : j < args.n) (inside : InTile call i j) :
    changeAll (args.kernelUpdates buffer call) c (args.rsC * i + j) =
      cellChange args bElement i j ⟨call.pc, call.kc0⟩
        (c (args.rsC * i + j)) := by
  rw [kernelUpdates_eq within.reads, changeAll_apply,
    updates_filter_inside ldc column within.columns inside]
  rfl

theorem changeAll_outside (ldc : args.n ≤ args.rsC)
    (within : CallWithin args bElement buffer call) {i j : Nat}
    (column : j < args.n) (outside : ¬ InTile call i j) :
    changeAll (args.kernelUpdates buffer call) c (args.rsC * i + j) =
      c (args.rsC * i + j) := by
  rw [kernelUpdates_eq within.reads, changeAll_apply,
    updates_filter_outside ldc column within.columns outside]
  rfl

/-- Memory behind a call represents the changed output. -/
theorem represents_updated (apart : Separated args place)
    (ldc : args.n ≤ args.rsC) (dvd : 16 ∣ args.blksz.NR)
    (within : CallWithin args bElement buffer call)
    (represents : Represents args buffer place memory c) {after : Memory}
    (updated : (problemOf args buffer place c tid call).Updated
      (fun _ _ => True) memory after) :
    Represents args buffer place after
      (changeAll (args.kernelUpdates buffer call) c) := by
  refine represents.move ?_ ?_
  · intro address operand
    exact updated.outside fun inBlock => apart.operands address operand
      (outputAt_of_inBlock within inBlock)
  · intro i row j column
    by_cases inside : InTile call i j
    · rw [changeAll_inside ldc within column inside]
      rcases inside with ⟨⟨top, bottom⟩, left, right⟩
      dsimp only at top bottom left right
      rcases Nat.exists_eq_add_of_le top with ⟨i', rfl⟩
      rcases Nat.exists_eq_add_of_le left with ⟨j', rfl⟩
      have inColumn : j' < call.nr0 := by omega
      have written := updated.written i' (show i' < call.mc0 by omega) j'
        inColumn trivial
      rw [cell_eq, value_eq dvd within inColumn] at written
      exact written
    · rw [changeAll_outside ldc within column inside]
      intro byte
      rw [updated.kept]
      · exact represents.c i row j column byte
      · intro i' inRow j' inColumn _ other same
        change i' < call.mc0 at inRow
        change j' < call.nr0 at inColumn
        have rows := within.rows
        have columns := within.columns
        rw [cell_eq] at same
        rcases output_inj apart ldc row column (by omega) (by omega) same with
          ⟨rfl, rfl⟩
        apply inside
        constructor
        · exact ⟨Nat.le_add_right _ _, Nat.add_lt_add_left inRow _⟩
        · exact ⟨Nat.le_add_right _ _, Nat.add_lt_add_left inColumn _⟩

end Cells

/-! ## A call refines the kernel operation -/

/-- The generated kernels of a call: the generator of the blocking's tile,
with room for B and an unrolled K loop, and with the scaling types of the
call. -/
structure Generates (args : GemmArgs) (jit : JitAmdZenS8)
    (kernelCodeBlocks : List Emitted) : Prop where
  generated : jit.generateAllKernels = some kernelCodeBlocks
  NR : jit.NR = args.blksz.NR
  several : 1 < jit.MR
  unroll : 0 < jit.kUnroll
  room : (jit.MR + 1) * jit.widest + 2 ≤ numRegs
  alphaScalingType : jit.alphaScalingType = alphaScalingType args.alpha
  betaScalingType : jit.betaScalingType =
    betaScalingType args.beta args.k args.blksz.KC

section Call

variable {args : GemmArgs} {bElement : Nat → Nat → BitVec 32}
variable {buffer : ReorderBuffer} {place : Placement}
variable {c : Nat → BitVec 32} {tid : Nat} {call : KernelCall}
variable {memory : Memory} {jit : JitAmdZenS8}
variable {kernelCodeBlocks : List Emitted}

/-- `executeKernel` receives the block of the call. -/
theorem blockFields_of_call :
    BlockFields (problemOf args buffer place c tid call)
      (gemmParams args place tid call) where
  a := rfl
  b := rfl
  c := rfl
  rsA := rfl
  csA := rfl
  psA := rfl
  rsC := rfl
  alpha := rfl
  beta := rfl
  isLastK := by
    unfold gemmParams problemOf
    simp only [decide_eq_false_iff_not]
    split_ifs with last
    · simp [last]
    · simp [last]
  sums := by
    simp only [gemmParams, problemOf, offset, BitVec.ofNat_add,
      BitVec.ofNat_mul, ofNat_four]
    ring

/-- A kernel that is specialised on a zero beta is called with one. -/
theorem beta0_of_zero (within : CallWithin args bElement buffer call)
    (zero : betaScalingType args.beta args.k args.blksz.KC = .zero) :
    args.beta0 call.pc = 0 := by
  rcases (betaScalingType_zero_iff _ _ _).mp zero with ⟨scalar, fits⟩
  have depth := within.depth
  have positive := within.depth_pos
  have first : call.pc = 0 :=
    Nat.eq_zero_of_dvd_of_lt within.step (by omega)
  rw [GemmArgs.beta0, if_pos first]
  exact eq_of_beq scalar

theorem alpha_of_scaling {alpha : BitVec 32} :
    (alphaScalingType alpha = .zero → alpha = 0) ∧
      (alphaScalingType alpha = .one → alpha = 1) := by
  unfold alphaScalingType
  split_ifs with one zero
  · exact ⟨fun never => (nomatch never), fun _ => eq_of_beq one⟩
  · exact ⟨fun _ => eq_of_beq zero, fun never => (nomatch never)⟩
  · exact ⟨fun never => (nomatch never), fun never => (nomatch never)⟩

theorem blockReady_of_call (generates : Generates args jit kernelCodeBlocks)
    (apart : Separated args place) (inTeam : tid < args.team.count)
    (contiguous : args.csA = 1)
    (ldc : args.n ≤ args.rsC) (dvd : 16 ∣ args.blksz.NR)
    (small : args.k < 2 ^ 64)
    (within : CallWithin args bElement buffer call)
    (represents : Represents args buffer place memory c)
    (scalar : DwordAt memory (place.beta0 tid) (args.beta0 call.pc)) :
    BlockReady jit kernelCodeBlocks
      (problemOf args buffer place c tid call) memory where
  generated := generates.generated
  rows := Nat.zero_lt_of_lt generates.several
  unroll := generates.unroll
  room := generates.room
  cells := cells_of_within apart ldc within
  operands := operands_of_represents apart inTeam contiguous within represents
    scalar
  olds i row j column := by
    change i < call.mc0 at row
    change j < call.nr0 at column
    have rows := within.rows
    have columns := within.columns
    have address : call.jc + args.rsC * call.ic + call.jr +
        (args.rsC * i + j) =
          args.rsC * (call.ic + i) + (call.jc + call.jr + j) := by ring
    rw [cell_eq]
    simp only [problemOf, address]
    exact represents.c _ (by omega) _ (by omega)
  padded := padded_of_within dvd within
  alphaZero zero := alpha_of_scaling.1 (generates.alphaScalingType ▸ zero)
  alphaOne one := alpha_of_scaling.2 (generates.alphaScalingType ▸ one)
  betaZero zero := beta0_of_zero within (generates.betaScalingType ▸ zero)
  m := by
    have rows := within.rows
    have positive := within.columns_pos
    have columns := within.columns
    have extent := apart.extent
    have wide : args.m - 1 ≤ args.rsC * (args.m - 1) :=
      Nat.le_mul_of_pos_left _ (by omega)
    change call.mc0 < 2 ^ 64
    omega
  k := by
    have depth := within.depth
    change call.kc0 < 2 ^ 64
    omega

/-- A call of the generated code on contiguous rows of A does to the output in
memory what the kernel operation does to the output, and changes nothing else
but the `beta0` of its thread. -/
theorem executesCall_refines (inTeam : tid < args.team.count)
    (generates : Generates args jit kernelCodeBlocks)
    (apart : Separated args place) (contiguous : args.csA = 1)
    (ldc : args.n ≤ args.rsC) (dvd : 16 ∣ args.blksz.NR)
    (small : args.k < 2 ^ 64)
    (within : CallWithin args bElement buffer call)
    (represents : Represents args buffer place memory c) :
    ∃ after, ExecutesCall jit kernelCodeBlocks args place tid call memory
        after ∧
      Represents args buffer place after
        (changeAll (args.kernelUpdates buffer call) c) ∧
      ∀ address, ¬ OutputAt args place address →
        ¬ Beta0At place tid address → after address = memory address := by
  let stored := storeDword (place.beta0 tid) (args.beta0 call.pc) memory
  have entry : Represents args buffer place stored c :=
    represents.store apart inTeam (args.beta0 call.pc)
  have ready := blockReady_of_call generates apart inTeam contiguous ldc dvd
    small within entry (storeDword_at _ _ _)
  have runs (state : State)
      (field : state.field = gemmParams args place tid call)
      (held : state.memory = stored) :
      ∃ final, jit.ExecuteKernel kernelCodeBlocks call.mc0 call.nr0 call.kc0
          state final ∧
        (problemOf args buffer place c tid call).Updated (fun _ _ => True)
          stored final.memory := by
    have fields : BlockFields (problemOf args buffer place c tid call)
        state.field := field ▸ blockFields_of_call
    rw [← held] at ready ⊢
    exact executeKernel_updates ready
      (within.width.trans_eq generates.NR.symm) fields
  let state : State :=
    { gpr := fun _ => 0
      zmm := fun _ => splatByte 0
      opmask := fun _ => 0
      flags := ⟨false, false, false⟩
      field := gemmParams args place tid call
      memory := stored }
  rcases runs state rfl rfl with ⟨final, _, updated⟩
  refine ⟨final.memory, ?_, represents_updated apart ldc dvd within entry
    updated, ?_⟩
  · intro other field held
    rcases runs other field held with ⟨ends, executes, same⟩
    exact ⟨ends, executes, updated_unique same updated⟩
  · intro address output scalar
    rw [updated.outside fun inBlock =>
      output (outputAt_of_inBlock within inBlock)]
    exact storeDword_outside fun byte same => scalar ⟨byte, same⟩

end Call

end AoclDlp.Jit.S8Frame
