import AoclDlp.Jit.S8Execute

/-!
# One kernel call on a part of a block

A block of C is `m` rows and `n` columns behind a pointer.  A kernel call
updates a rectangle of it: whole row blocks, and the columns of one group of
registers.  A call is specified by the cells that have been updated before and
after it; the operands have to lie outside the block of C.
-/

namespace AoclDlp.Jit.S8Call

open AoclDlp.DecisionEngine.Scaling
open AoclDlp.Foundations.Assembly
open AoclDlp.Foundations.Avx512
open AoclDlp.Foundations.Lanes
open AoclDlp.Jit.S8Accumulate
open AoclDlp.Jit.S8Allocation
open AoclDlp.Jit.S8Elements
open AoclDlp.Jit.S8Execute
open AoclDlp.Jit.S8Generator
open AoclDlp.Jit.S8Generator.GeneratorParams
open AoclDlp.Jit.S8Kernel
open AoclDlp.Jit.S8Scale
open AoclDlp.Jit.S8Step
open AoclDlp.Jit.S8Store

/-! ## Blocks of C and their operands -/

/-- The operands of a block of C, with their pointers.  B is a strip of bytes,
`rsA` counts bytes and `rsC` elements. -/
structure Problem where
  m : Nat
  n : Nat
  k : Nat
  a : Nat → Nat → BitVec 8
  b : Nat → BitVec 8
  sums : Nat → BitVec 32
  old : Nat → Nat → BitVec 32
  alpha : BitVec 32
  beta : BitVec 32
  isLastK : Bool
  aPtr : BitVec 64
  bPtr : BitVec 64
  cPtr : BitVec 64
  sumsPtr : BitVec 64
  alphaPtr : BitVec 64
  betaPtr : BitVec 64
  rsA : Nat
  rsC : Nat

namespace Problem

variable (problem : Problem)

/-- Quads of K. -/
def quads : Nat := (problem.k + 3) / 4

/-- Registers of columns, the last one possibly not full. -/
def registers : Nat := (problem.n + 15) / 16

/-- The address of a cell of C. -/
def cell (i j : Nat) : BitVec 64 :=
  offset problem.cPtr (4 * (problem.rsC * i + j))

/-- A byte of the block of C. -/
def InBlock (place : BitVec 64) : Prop :=
  ∃ i < problem.m, ∃ j < problem.n, ∃ byte : Fin 4,
    place = offset (problem.cell i j) byte

/-- The cells are distinct and the block does not reach over the end of the
address space. -/
structure Cells : Prop where
  rows : problem.n ≤ problem.rsC
  nonnull : problem.cPtr ≠ 0
  extent : problem.cPtr.toNat +
    4 * (problem.rsC * (problem.m - 1) + problem.n) ≤ 2 ^ 64

/-- A byte outside the block of C. -/
def ByteAt (memory : Memory) (address : BitVec 64) (byte : BitVec 8) : Prop :=
  memory address = some byte ∧ ¬ problem.InBlock address

/-- A doubleword outside the block of C. -/
def WordAt (memory : Memory) (address : BitVec 64) (word : BitVec 32) :
    Prop :=
  ∀ place : Fin 4, problem.ByteAt memory (offset address place)
    (byteOf word place)

/-- The operands are in memory, outside the block of C; the column sums and
the strip of B are there up to whole registers. -/
structure OperandsAt (memory : Memory) : Prop where
  a : ∀ i < problem.m, ∀ r < problem.k,
    problem.ByteAt memory (offset problem.aPtr (problem.rsA * i + r))
      (problem.a i r)
  b : ∀ p < 64 * (problem.quads * problem.registers),
    problem.ByteAt memory (offset problem.bPtr p) (problem.b p)
  sums : problem.isLastK = true → ∀ j < 16 * problem.registers,
    problem.WordAt memory (offset problem.sumsPtr (4 * j)) (problem.sums j)
  alpha : problem.WordAt memory problem.alphaPtr problem.alpha
  beta : problem.WordAt memory problem.betaPtr problem.beta

end Problem

namespace Problem

variable (problem : Problem)

/-- Columns in whole registers. -/
def wholeCols : Nat := 16 * (problem.n / 16)

/-- An element of B in the strip: the whole registers come first, quad by quad,
and the remainder follows them. -/
def bAt (r j : Nat) : BitVec 8 :=
  if j < problem.wholeCols then
    problem.b (r / 4 * (4 * problem.wholeCols) + (4 * j + r % 4))
  else
    problem.b (4 * problem.wholeCols * problem.quads +
      (r / 4 * 64 + (4 * (j - problem.wholeCols) + r % 4)))

/-- B is zero behind the end of K. -/
def Padded : Prop :=
  ∀ r, problem.k ≤ r → r < 4 * problem.quads → ∀ j < problem.n,
    problem.bAt r j = 0

/-- What a cell holds behind the call that updates it. -/
def value (i j : Nat) : BitVec 32 :=
  problem.beta * problem.old i j +
    problem.alpha *
      (dotProduct problem.k (problem.a i) (fun r => problem.bAt r j) -
        if problem.isLastK then problem.sums j else 0)

/-- Memory in which the cells that are done have their new value, and nothing
else has changed. -/
structure Updated (done : Nat → Nat → Prop) (start memory : Memory) :
    Prop where
  written : ∀ i < problem.m, ∀ j < problem.n, done i j →
    DwordAt memory (problem.cell i j) (problem.value i j)
  kept : ∀ place, (∀ i < problem.m, ∀ j < problem.n, done i j →
      ∀ byte : Fin 4, place ≠ offset (problem.cell i j) byte) →
    memory place = start place

variable {problem}

/-- The address of a byte of the block, as a number. -/
theorem cell_toNat (cells : problem.Cells) {i j : Nat} (inRow : i < problem.m)
    (inColumn : j < problem.n) (byte : Fin 4) :
    (offset (problem.cell i j) byte).toNat =
      problem.cPtr.toNat + (4 * (problem.rsC * i + j) + byte) := by
  have rows : problem.rsC * i ≤ problem.rsC * (problem.m - 1) :=
    Nat.mul_le_mul_left _ (by omega)
  have extent := cells.extent
  have place := byte.isLt
  unfold cell
  rw [offset_offset, offset, BitVec.toNat_add, BitVec.toNat_ofNat,
    Nat.add_mod_mod]
  exact Nat.mod_eq_of_lt (by omega)

/-- Cells do not overlap. -/
theorem cell_inj (cells : problem.Cells) {i j row column : Nat}
    {byte other : Fin 4} (inRow : i < problem.m) (inColumn : j < problem.n)
    (rowBelow : row < problem.m) (columnBelow : column < problem.n)
    (same : offset (problem.cell i j) byte =
      offset (problem.cell row column) other) :
    i = row ∧ j = column ∧ byte = other := by
  have numbers := congrArg BitVec.toNat same
  rw [cell_toNat cells inRow inColumn,
    cell_toNat cells rowBelow columnBelow] at numbers
  have first := byte.isLt
  have second := other.isLt
  have bytes : byte.val = other.val := by omega
  have places : problem.rsC * i + j = problem.rsC * row + column := by omega
  have wide := cells.rows
  have rows : i = row := by
    have left : (problem.rsC * i + j) / problem.rsC = i := by
      rw [Nat.mul_add_div (by omega), Nat.div_eq_of_lt (by omega),
        Nat.add_zero]
    have right : (problem.rsC * row + column) / problem.rsC = row := by
      rw [Nat.mul_add_div (by omega), Nat.div_eq_of_lt (by omega),
        Nat.add_zero]
    rw [← left, ← right, places]
  subst rows
  exact ⟨rfl, by omega, Fin.ext bytes⟩

theorem Updated.congr {done other : Nat → Nat → Prop}
    {start memory : Memory} (updated : problem.Updated done start memory)
    (same : ∀ i < problem.m, ∀ j < problem.n, done i j ↔ other i j) :
    problem.Updated other start memory where
  written i inRow j inColumn settled :=
    updated.written i inRow j inColumn
      ((same i inRow j inColumn).mpr settled)
  kept place outside :=
    updated.kept place fun i inRow j inColumn settled =>
      outside i inRow j inColumn ((same i inRow j inColumn).mp settled)

/-- Where no cell is done, memory is as before. -/
theorem Updated.outside {done : Nat → Nat → Prop} {start memory : Memory}
    (updated : problem.Updated done start memory) {place : BitVec 64}
    (outside : ¬ problem.InBlock place) : memory place = start place :=
  updated.kept place fun i inRow j inColumn _ byte same =>
    outside ⟨i, inRow, j, inColumn, byte, same⟩

end Problem

/-! ## Groups of columns -/

/-- A group of columns that one kernel handles: its first column, its live
columns, its registers, and where its bytes of B start. -/
structure ColumnGroup where
  first : Nat
  cols : Nat
  regs : Nat
  bytes : Nat

/-- A group lies in the block, and finds its columns in the strip. -/
structure ColumnGroup.Within (group : ColumnGroup) (problem : Problem) : Prop where
  columns : group.first + group.cols ≤ problem.n
  live : group.cols ≤ 16 * group.regs
  sums : group.first + 16 * group.regs ≤ 16 * problem.registers
  strip : group.bytes + 64 * (problem.quads * group.regs) ≤
    64 * (problem.quads * problem.registers)
  layout : ∀ r, ∀ x < group.cols,
    problem.b (group.bytes +
        (r / 4 * (64 * group.regs) + (4 * x + r % 4))) =
      problem.bAt r (group.first + x)

/-- The parameters of a call on the rows from `row` on and a group. -/
structure CallFields (params : GeneratorParams) (problem : Problem)
    (group : ColumnGroup) (row : Nat) (field : GemmParams → BitVec 64) : Prop where
  a : field .a = offset problem.aPtr (problem.rsA * row)
  psA : params.mLoop = true →
    field .psA = BitVec.ofNat 64 (problem.rsA * params.MR)
  rsA : field .rsA = BitVec.ofNat 64 problem.rsA
  csA : field .csA = 4
  b : field .b = offset problem.bPtr group.bytes
  rsB : field .rsB = BitVec.ofNat 64 (64 * group.regs)
  c : field .c = offset problem.cPtr
    (4 * (problem.rsC * row + group.first))
  rsC : field .rsC = BitVec.ofNat 64 problem.rsC
  alpha : field .alpha = problem.alphaPtr
  beta : field .beta = problem.betaPtr
  full : (field .kIterBP).toNat * params.kUnroll +
    (if params.kUnroll = 1 then 0 else (field .kLeftIter).toNat) =
      problem.k / 4
  tail : field (tailField params) = 0 ↔ problem.k % 4 = 0
  kLeftmask : field .kLeftmask = BitVec.ofNat 64 (2 ^ (problem.k % 4) - 1)
  isLastK : field .isLastK = 0 ↔ problem.isLastK = false
  sums : field .bColSumVec + field .bSumOffset * 4 =
    offset problem.sumsPtr (4 * group.first)
  regs : params.bReg = group.regs
  whole : params.useMask = false → group.cols = 16 * group.regs
  maskS32 : params.useMask = true → group.regs = 1 ∧
    field .maskS32 = BitVec.ofNat 64 (2 ^ group.cols - 1)

/-- The fields in which the calls over a group may differ. -/
def rowFields : List GemmParams :=
  [.mIter, .a, .c, .postOpCI]

/-- The parameters of a call on other rows of a group. -/
theorem CallFields.move {params other : GeneratorParams} {problem : Problem}
    {group : ColumnGroup} {row next : Nat} {field changed : GemmParams → BitVec 64}
    (fields : CallFields params problem group row field)
    (unroll : other.kUnroll = params.kUnroll)
    (regs : other.bReg = params.bReg)
    (masks : other.useMask = params.useMask)
    (same : ∀ name, name ∉ rowFields → changed name = field name)
    (a : changed .a = offset problem.aPtr (problem.rsA * next))
    (psA : other.mLoop = true →
      changed .psA = BitVec.ofNat 64 (problem.rsA * other.MR))
    (c : changed .c = offset problem.cPtr
      (4 * (problem.rsC * next + group.first))) :
    CallFields other problem group next changed where
  a := a
  psA := psA
  rsA := (same .rsA (by decide)).trans fields.rsA
  csA := (same .csA (by decide)).trans fields.csA
  b := (same .b (by decide)).trans fields.b
  rsB := (same .rsB (by decide)).trans fields.rsB
  c := c
  rsC := (same .rsC (by decide)).trans fields.rsC
  alpha := (same .alpha (by decide)).trans fields.alpha
  beta := (same .beta (by decide)).trans fields.beta
  full := by
    rw [same .kIterBP (by decide), same .kLeftIter (by decide), unroll]
    exact fields.full
  tail := by
    have shared : tailField other = tailField params := by
      rw [tailField, tailField, unroll]
    have kept : changed (tailField params) = field (tailField params) := by
      unfold tailField
      split_ifs
      · exact same _ (by decide)
      · exact same _ (by decide)
    rw [shared, kept]
    exact fields.tail
  kLeftmask := (same .kLeftmask (by decide)).trans fields.kLeftmask
  isLastK := by
    rw [same .isLastK (by decide)]
    exact fields.isLastK
  sums := by
    rw [same .bColSumVec (by decide), same .bSumOffset (by decide)]
    exact fields.sums
  regs := regs.trans fields.regs
  whole masked := fields.whole (masks ▸ masked)
  maskS32 masked := by
    rw [masks] at masked
    rw [same .maskS32 (by decide)]
    exact fields.maskS32 masked

/-! ## The registers of a row block -/

section Block

variable {params : GeneratorParams} {problem : Problem} {group : ColumnGroup}
variable {row block : Nat} {state : State} {memory : Memory}

theorem ofNat_four : BitVec.ofNat 64 4 = 4 := rfl

theorem ofNat_sixteen : BitVec.ofNat 64 16 = 16 := rfl

theorem ofNat_sixtyFour : BitVec.ofNat 64 64 = 64 := rfl

/-- The fields of a row block are those of the call. -/
theorem blockField_of_ne {field : GemmParams} (other : field ≠ .postOpCI) :
    (blockEntry params state block memory).field field = state.field field :=
  Function.update_of_ne other _ _

/-- A block of a call that does not loop is the first one. -/
theorem block_eq_zero (single : params.mLoop = false)
    (below : block < blocks params state) : block = 0 := by
  rw [blocks, single, if_neg Bool.false_ne_true] at below
  omega

theorem blockGpr_rsA :
    (blockEntry params state block memory).gpr regRsA = state.field .rsA := by
  simp [blockEntry, blockGpr]

theorem blockGpr_csA :
    (blockEntry params state block memory).gpr regCsA = state.field .csA := by
  simp [blockEntry, blockGpr]

theorem blockGpr_rsB :
    (blockEntry params state block memory).gpr regRsB = state.field .rsB := by
  simp [blockEntry, blockGpr]

theorem aBlock_eq
    (fields : CallFields params problem group row state.field)
    (below : block < blocks params state) :
    aBlock state block =
      offset problem.aPtr (problem.rsA * (row + params.MR * block)) := by
  unfold aBlock
  rw [fields.a]
  cases loops : params.mLoop with
  | false =>
      rw [block_eq_zero loops below]
      simp
  | true =>
      rw [fields.psA loops]
      simp only [offset, scaled, BitVec.ofNat_add, BitVec.ofNat_mul]
      ring

/-- A register of the tile of a row block is a run of cells. -/
theorem cellAddress_eq
    (fields : CallFields params problem group row state.field) (t : Nat) :
    cellAddress params (blockEntry params state block memory) t =
      problem.cell (row + params.MR * block + t / group.regs)
        (group.first + 16 * (t % group.regs)) := by
  have cPtr : (blockEntry params state block memory).gpr regCPtr =
      offset problem.cPtr (4 * (problem.rsC * row + group.first)) +
        scaled (BitVec.ofNat 64 problem.rsC * 4) (params.MR * block) := by
    simp [blockEntry, blockGpr, fields.c, fields.rsC]
  have rsC : (blockEntry params state block memory).gpr regRsC =
      BitVec.ofNat 64 problem.rsC * 4 := by
    simp [blockEntry, blockGpr, fields.rsC]
  unfold cellAddress cAddress Problem.cell
  rw [cPtr, rsC, fields.regs]
  generalize t / group.regs = i
  generalize t % group.regs = j
  simp only [offset, scaled, regBytes, BitVec.ofNat_add, BitVec.ofNat_mul,
    ofNat_four, ofNat_sixteen, ofNat_sixtyFour]
  ring

/-- A mask of low bits. -/
theorem maskOf_low {count : Nat} (small : count ≤ 16) (bit : Nat) :
    (maskOf (BitVec.ofNat 64 (2 ^ count - 1))).getLsbD bit =
      decide (bit < count) := by
  unfold maskOf
  rw [BitVec.getLsbD_setWidth, BitVec.getLsbD_setWidth, BitVec.getLsbD_ofNat,
    Nat.testBit_two_pow_sub_one]
  by_cases inside : bit < count
  · simp [inside]
    omega
  · simp [inside]

theorem kLeftMask_eq
    (fields : CallFields params problem group row state.field) (bit : Nat) :
    ((blockEntry params state block memory).opmask kLeftMaskReg).getLsbD
        bit = decide (bit < problem.k % 4) := by
  have mask : (blockEntry params state block memory).opmask kLeftMaskReg =
      maskOf (state.field .kLeftmask) := by
    unfold blockEntry blockOpmask
    simp only
    split_ifs
    · rw [Function.update_of_ne (by decide), Function.update_self]
    · rw [Function.update_self]
  rw [mask, fields.kLeftmask]
  exact maskOf_low (by omega) bit

/-- The bytes of the tile that are stored: those of the live columns. -/
theorem cellBytes_eq (within : group.Within problem)
    (fields : CallFields params problem group row state.field) {t : Nat}
    (below : t < params.cReg) (index : Fin 64) :
    cellBytes params (blockEntry params state block memory) t index =
      decide (16 * (t % group.regs) + index / 4 < group.cols) := by
  have column : t % params.bReg < params.bReg :=
    Nat.mod_lt _ (bReg_pos_of_lt below)
  have wide : decide (index.val < Width.zmm.bytes) = true :=
    decide_eq_true index.isLt
  have place : index.val / (32 / 8) = index.val / 4 := rfl
  rw [← fields.regs]
  unfold cellBytes cells Machine.selected
  rw [wide, Bool.true_and]
  cases masked : params.useMask with
  | false =>
      have none : params.finalMask (t % params.bReg) = none := by
        simp [finalMask, masked]
      have all := fields.whole masked
      rw [none, fields.regs] at *
      symm
      rw [decide_eq_true_eq]
      omega
  | true =>
      have single := fields.maskS32 masked
      have last : params.finalMask (t % params.bReg) = some maskS32Reg := by
        have register := fields.regs
        simp only [finalMask, masked, Bool.true_and]
        rw [if_pos]
        rw [decide_eq_true_eq]
        omega
      have mask : (blockEntry params state block memory).opmask maskS32Reg =
          maskOf (state.field .maskS32) := by
        simp [blockEntry, blockOpmask, masked]
      have first : t % params.bReg = 0 := by
        rw [fields.regs, single.1]
        exact Nat.mod_one t
      have narrow : group.cols ≤ 16 := by
        have live := within.live
        omega
      rw [last]
      simp only [mask, single.2, place, maskOf_low narrow, first, Nat.mul_zero,
        Nat.zero_add]

end Block

/-! ## The operands of a row block -/

/-- What the rows from `row` on find for a group. -/
def groupContents (problem : Problem) (group : ColumnGroup) (row : Nat) :
    Contents where
  ops :=
    { quad := fun round i => ofBytes fun place =>
        if 4 * round + place < problem.k then
          problem.a (row + i) (4 * round + place)
        else 0
      row := fun round j index =>
        problem.b (group.bytes +
          (round * (64 * group.regs) + (64 * j + index))) }
  sums := fun j => ofDwords fun lane =>
    problem.sums (group.first + (16 * j + lane))
  alpha := problem.alpha
  beta := problem.beta
  old := fun t => ofDwords fun lane =>
    problem.old (row + t / group.regs)
      (group.first + (16 * (t % group.regs) + lane))

/-- What a call relies on: the block of C, its operands and the parameters.
The cells that are done come from earlier calls and the call has its own. -/
structure Ready (params : GeneratorParams) (problem : Problem)
    (group : ColumnGroup) (row : Nat) (done : Nat → Nat → Prop) (start : Memory)
    (state : State) : Prop where
  fits : Fits params
  cells : problem.Cells
  operands : problem.OperandsAt start
  olds : ∀ i < problem.m, ∀ j < problem.n,
    DwordAt start (problem.cell i j) (problem.old i j)
  padded : problem.Padded
  special : Specialised params problem.alpha problem.beta
  within : group.Within problem
  fields : CallFields params problem group row state.field
  rows : row + params.MR * blocks params state ≤ problem.m
  updated : problem.Updated done start state.memory
  fresh : ∀ i j, row ≤ i → group.first ≤ j →
    j < group.first + group.cols → ¬ done i j

section Operands

variable {params : GeneratorParams} {problem : Problem} {group : ColumnGroup}
variable {row block : Nat} {state : State} {done : Nat → Nat → Prop}
variable {start : Memory}

/-- The cell of a byte of the tile. -/
theorem tile_place
    (fields : CallFields params problem group row state.field)
    {memory : Memory} (t : Nat) (index : Fin 64) :
    offset (cellAddress params (blockEntry params state block memory) t)
        index =
      offset (problem.cell (row + params.MR * block + t / group.regs)
        (group.first + (16 * (t % group.regs) + index / 4)))
        (Fin.ofNat 4 index) := by
  rw [cellAddress_eq fields]
  unfold Problem.cell
  rw [offset_offset, offset_offset]
  congr 1
  have byte : (Fin.ofNat 4 index.val).val = index % 4 := rfl
  rw [byte]
  omega

/-- The row and the column of a stored byte. -/
theorem tile_bounds
    (ready : Ready params problem group row done start state)
    (below : block < blocks params state) {t : Nat}
    (inRange : t < params.cReg) {index : Fin 64} {memory : Memory}
    (kept : cellBytes params (blockEntry params state block memory) t index =
      true) :
    t / group.regs < params.MR ∧
      row + params.MR * (block + 1) ≤ problem.m ∧
      16 * (t % group.regs) + index / 4 < group.cols ∧
      group.first + group.cols ≤ problem.n := by
  rw [cellBytes_eq ready.within ready.fields inRange] at kept
  have last : params.MR * (block + 1) ≤
      params.MR * blocks params state := Nat.mul_le_mul_left _ below
  have rows := ready.rows
  have rowBelow := accumulator_row inRange
  rw [ready.fields.regs] at rowBelow
  exact ⟨rowBelow, by omega, of_decide_eq_true kept, ready.within.columns⟩

/-- The cells of the tile of a row block. -/
theorem inTile_cell
    (ready : Ready params problem group row done start state)
    (below : block < blocks params state) {place : BitVec 64}
    (inTile : InTile params (blockEntry params state block state.memory)
      params.cReg place) :
    ∃ i j, row + params.MR * block ≤ i ∧
      i < row + params.MR * (block + 1) ∧ i < problem.m ∧
      group.first ≤ j ∧ j < group.first + group.cols ∧ j < problem.n ∧
      ∃ byte : Fin 4, place = offset (problem.cell i j) byte := by
  rcases inTile with ⟨t, inRange, index, kept, rfl⟩
  rcases tile_bounds ready below inRange kept with
    ⟨inRow, rows, inColumn, columns⟩
  rw [Nat.mul_succ] at rows ⊢
  rw [tile_place ready.fields]
  generalize t / group.regs = i at inRow ⊢
  exact ⟨row + params.MR * block + i,
    group.first + (16 * (t % group.regs) + index / 4), by omega, by omega,
    by omega, by omega, by omega, by omega, _, rfl⟩

/-- An operand is found by every row block. -/
theorem operand_unwritten
    (ready : Ready params problem group row done start state)
    (below : block ≤ blocks params state) {address : BitVec 64}
    {byte : BitVec 8} (stored : problem.ByteAt start address byte) :
    unwritten params state block address = some byte := by
  have outside : ¬ InTiles params state block address := by
    rintro ⟨earlier, before, inTile⟩
    rcases inTile_cell ready (Nat.lt_of_lt_of_le before below) inTile with
      ⟨i, j, _, _, inRow, _, _, inColumn, place, same⟩
    exact stored.2 ⟨i, inRow, j, inColumn, place, same⟩
  unfold unwritten
  rw [if_neg outside, ready.updated.outside stored.2]
  exact stored.1

theorem word_unwritten
    (ready : Ready params problem group row done start state)
    (below : block ≤ blocks params state) {address : BitVec 64}
    {word : BitVec 32} (stored : problem.WordAt start address word) :
    DwordAt (unwritten params state block) address word :=
  fun place => operand_unwritten ready below (stored place)

/-- The first `K` quads of A and B, as a row block addresses them. -/
def roundA (state : State) (block round : Nat) : BitVec 64 :=
  aBlock state block + scaled (state.field .csA) round

def roundB (state : State) (round : Nat) : BitVec 64 :=
  state.field .b + scaled (state.field .rsB) round

theorem quadByte_address
    (fields : CallFields params problem group row state.field)
    (below : block < blocks params state) (round i : Nat) (place : Fin 4) :
    offset (roundA state block round + scaled (state.field .rsA) i) place =
      offset problem.aPtr (problem.rsA * (row + params.MR * block + i) +
        (4 * round + place)) := by
  unfold roundA
  rw [aBlock_eq fields below, fields.csA, fields.rsA]
  simp only [offset, scaled, BitVec.ofNat_add, BitVec.ofNat_mul, ofNat_four]
  ring

theorem rowByte_address
    (fields : CallFields params problem group row state.field)
    (round j : Nat) (index : Fin 64) :
    offset (offset (roundB state round) (j * regBytes)) index =
      offset problem.bPtr (group.bytes +
        (round * (64 * group.regs) + (64 * j + index))) := by
  unfold roundB
  rw [fields.b, fields.rsB]
  simp only [offset, scaled, regBytes, BitVec.ofNat_add, BitVec.ofNat_mul,
    ofNat_sixtyFour]
  ring

/-- The registers of B of a round. -/
theorem rows_found (ready : Ready params problem group row done start state)
    (below : block ≤ blocks params state) {round : Nat}
    (before : round < problem.quads) {j : Nat} (inColumn : j < params.bReg) :
    Holds (unwritten params state block)
      (offset (roundB state round) (j * regBytes)) (fun _ => true)
      ((groupContents problem group
        (row + params.MR * block)).ops.row round j) := by
  intro index _
  rw [rowByte_address ready.fields]
  refine operand_unwritten ready below (ready.operands.b _ ?_)
  have strip := ready.within.strip
  have rounds : (round + 1) * group.regs ≤ problem.quads * group.regs :=
    Nat.mul_le_mul_right _ before
  have registers := ready.fields.regs
  have place := index.isLt
  rw [Nat.succ_mul] at rounds
  have shape : round * (64 * group.regs) = 64 * (round * group.regs) := by
    ring
  omega

/-- The quads of A of a round. -/
theorem quad_byte (ready : Ready params problem group row done start state)
    (below : block < blocks params state) (round : Nat) {i : Nat}
    (inRow : i < params.MR) (place : Fin 4) :
    if 4 * round + place < problem.k then
      unwritten params state block
          (offset (roundA state block round +
            scaled (state.field .rsA) i) place) =
        some (byteOf ((groupContents problem group
          (row + params.MR * block)).ops.quad round i) place)
    else
      byteOf ((groupContents problem group
        (row + params.MR * block)).ops.quad round i) place = 0 := by
  unfold groupContents
  simp only [byteOf_ofBytes]
  by_cases inside : 4 * round + place < problem.k
  · simp only [if_pos inside]
    rw [quadByte_address ready.fields below]
    have last : params.MR * (block + 1) ≤
        params.MR * blocks params state := Nat.mul_le_mul_left _ below
    rw [Nat.mul_succ] at last
    have rows := ready.rows
    exact operand_unwritten ready (Nat.le_of_lt below)
      (ready.operands.a _ (by omega) _ inside)
  · simp only [if_neg inside]

theorem fullRounds_eq
    (fields : CallFields params problem group row state.field)
    {memory : Memory} :
    fullRounds params (blockEntry params state block memory) =
      problem.k / 4 := by
  unfold fullRounds
  rw [blockField_of_ne (by decide), blockField_of_ne (by decide)]
  exact fields.full

theorem tailField_eq {memory : Memory} :
    (blockEntry params state block memory).field (tailField params) =
      state.field (tailField params) := by
  refine blockField_of_ne ?_
  unfold tailField
  split_ifs <;> decide

/-- A row block finds A and B. -/
theorem supplies_found
    (ready : Ready params problem group row done start state)
    (below : block < blocks params state) :
    Supplies params
      (groupContents problem group (row + params.MR * block)).ops
      (blockEntry params state block (unwritten params state block))
      (aBlock state block)
      ((blockEntry params state block (unwritten params state block)).field
        .b) where
  full round before := by
    rw [fullRounds_eq ready.fields] at before
    rw [blockGpr_csA, blockGpr_rsB, blockField_of_ne (by decide)]
    have strip : round < problem.quads := by
      unfold Problem.quads
      omega
    refine ⟨fun never => absurd never Bool.false_ne_true,
      fun i inRow place => ?_,
      fun j inColumn => rows_found ready (Nat.le_of_lt below) strip inColumn⟩
    have byte := quad_byte ready below round inRow place
    have inside : 4 * round + place < problem.k := by omega
    rw [if_pos inside] at byte
    rw [blockGpr_rsA]
    exact byte
  tail some := by
    rw [tailField_eq, Ne, ready.fields.tail] at some
    rw [fullRounds_eq ready.fields, blockGpr_csA, blockGpr_rsB,
      blockField_of_ne (by decide)]
    have strip : problem.k / 4 < problem.quads := by
      unfold Problem.quads
      omega
    refine ⟨fun _ bit wide => ?_, fun i inRow place => ?_,
      fun j inColumn => rows_found ready (Nat.le_of_lt below) strip inColumn⟩
    · rw [kLeftMask_eq ready.fields, decide_eq_false_iff_not]
      omega
    · have byte := quad_byte ready below (problem.k / 4) inRow place
      rw [kLeftMask_eq ready.fields, blockGpr_rsA]
      by_cases live : place.val < problem.k % 4
      · have inside : 4 * (problem.k / 4) + place < problem.k := by omega
        rw [if_pos inside] at byte
        rw [if_pos (decide_eq_true live)]
        exact byte
      · have outside : ¬ 4 * (problem.k / 4) + place < problem.k := by omega
        rw [if_neg outside] at byte
        rw [if_neg (by simpa using live)]
        exact byte

/-- The column sums of a group. -/
theorem sums_found (ready : Ready params problem group row done start state)
    (below : block ≤ blocks params state)
    (last : problem.isLastK = true) :
    SumsAt params
      (blockEntry params state block (unwritten params state block))
      (groupContents problem group (row + params.MR * block)).sums := by
  intro j inColumn index _
  have address : sumsAddress
      (blockEntry params state block (unwritten params state block)) =
        offset problem.sumsPtr (4 * group.first) := by
    unfold sumsAddress
    rw [blockField_of_ne (by decide), blockField_of_ne (by decide)]
    exact ready.fields.sums
  have registers := ready.fields.regs
  have sums := ready.within.sums
  have place : offset (offset (offset problem.sumsPtr (4 * group.first))
      (j * regBytes)) index =
        offset (offset problem.sumsPtr
          (4 * (group.first + (16 * j + index / 4))))
          (⟨index % 4, by omega⟩ : Fin 4) := by
    rw [offset_offset, offset_offset, offset_offset]
    congr 1
    simp only [regBytes]
    omega
  rw [address, place]
  have inside : group.first + (16 * j + index / 4) <
      16 * problem.registers := by
    omega
  exact word_unwritten ready below (ready.operands.sums last _ inside) _

/-- A cell that no earlier call and no earlier row block has updated. -/
theorem cell_unwritten
    (ready : Ready params problem group row done start state)
    (below : block < blocks params state) {i j : Nat}
    (lower : row + params.MR * block ≤ i) (inRow : i < problem.m)
    (left : group.first ≤ j) (right : j < group.first + group.cols)
    (inColumn : j < problem.n) (byte : Fin 4) :
    unwritten params state block (offset (problem.cell i j) byte) =
      some (byteOf (problem.old i j) byte) := by
  have apart : ¬ InTiles params state block
      (offset (problem.cell i j) byte) := by
    rintro ⟨earlier, before, inTile⟩
    rcases inTile_cell ready (Nat.lt_trans before below) inTile with
      ⟨other, column, _, upper, otherRow, _, _, otherColumn, place, same⟩
    have rows := (Problem.cell_inj ready.cells inRow inColumn otherRow
      otherColumn same).1
    have ends : params.MR * (earlier + 1) ≤ params.MR * block :=
      Nat.mul_le_mul_left _ before
    omega
  have unchanged : state.memory (offset (problem.cell i j) byte) =
      start (offset (problem.cell i j) byte) := by
    refine ready.updated.kept _ fun other otherRow column otherColumn
      settled place same => ?_
    rcases Problem.cell_inj ready.cells inRow inColumn otherRow otherColumn
      same with ⟨rfl, rfl, _⟩
    exact ready.fresh i j (by omega) left right settled
  unfold unwritten
  rw [if_neg apart, unchanged]
  exact ready.olds i inRow j inColumn byte

/-- The old cells of the tile of a row block. -/
theorem old_found (ready : Ready params problem group row done start state)
    (below : block < blocks params state) :
    OldAt params
      (blockEntry params state block (unwritten params state block))
      (groupContents problem group (row + params.MR * block)).old := by
  intro i inRow j inColumn index kept
  have inRange := accumulator_lt inRow inColumn
  have quotient := accumulator_div i inColumn
  have remainder := accumulator_mod i inColumn
  have address : cAddress
      (blockEntry params state block (unwritten params state block)) i j =
        cellAddress params
          (blockEntry params state block (unwritten params state block))
          (i * params.bReg + j) := by
    rw [cellAddress, quotient, remainder]
  have stored : cellBytes params
      (blockEntry params state block (unwritten params state block))
      (i * params.bReg + j) index = true := by
    rw [cellBytes, remainder]
    exact kept
  rcases tile_bounds ready below inRange stored with
    ⟨_, rows, live, columns⟩
  rw [← ready.fields.regs, remainder] at live
  rw [Nat.mul_succ] at rows
  have value : (groupContents problem group
      (row + params.MR * block)).old (i * params.bReg + j) index =
        byteOf (problem.old (row + params.MR * block + i)
          (group.first + (16 * j + index / 4))) (Fin.ofNat 4 index) := by
    unfold groupContents ofDwords
    simp only
    rw [← ready.fields.regs, quotient, remainder]
    rfl
  rw [address, tile_place ready.fields, ← ready.fields.regs, quotient,
    remainder, value]
  exact cell_unwritten ready below (by omega) (by omega) (by omega)
    (by omega) (by omega) _

/-- The tile of a row block does not overlap itself. -/
theorem apart_found
    (ready : Ready params problem group row done start state)
    (below : block < blocks params state) {memory : Memory} :
    Apart params (blockEntry params state block memory) := by
  intro t inRange other otherRange different index place kept otherKept same
  rcases tile_bounds ready below inRange kept with
    ⟨inRow, rows, live, columns⟩
  rcases tile_bounds ready below otherRange otherKept with
    ⟨otherRow, _, otherLive, _⟩
  rw [Nat.mul_succ] at rows
  rw [tile_place ready.fields, tile_place ready.fields] at same
  have equal := Problem.cell_inj ready.cells (by omega) (by omega)
    (by omega) (by omega) same
  apply different
  rw [← Nat.div_add_mod t group.regs, ← Nat.div_add_mod other group.regs]
  have row := equal.1
  have column : t % group.regs = other % group.regs := by
    have first := index.isLt
    have second := place.isLt
    omega
  have rowSame : t / group.regs = other / group.regs := by
    generalize t / group.regs = i at row ⊢
    generalize other / group.regs = i' at row ⊢
    omega
  rw [column, rowSame]

/-- Every row block of a call finds its operands. -/
theorem blockFound (ready : Ready params problem group row done start state)
    (below : block < blocks params state) :
    BlockFound params state
      (fun block => groupContents problem group (row + params.MR * block))
      block where
  supplies _ := supplies_found ready below
  sums _ last := by
    rw [blockField_of_ne (by decide)] at last
    have isLast : problem.isLastK = true := by
      by_contra other
      exact last (ready.fields.isLastK.mpr (Bool.not_eq_true _ ▸ other))
    exact sums_found ready (Nat.le_of_lt below) isLast
  alpha _ := by
    rw [blockField_of_ne (by decide), ready.fields.alpha]
    exact word_unwritten ready (Nat.le_of_lt below) ready.operands.alpha
  beta _ := by
    rw [blockField_of_ne (by decide), ready.fields.beta]
    exact word_unwritten ready (Nat.le_of_lt below) ready.operands.beta
  old := old_found ready below
  apart := apart_found ready below

/-! ## What a call stores -/

theorem rounds_eq
    (fields : CallFields params problem group row state.field)
    {memory : Memory} :
    rounds params (blockEntry params state block memory) = problem.quads := by
  unfold rounds Problem.quads
  rw [fullRounds_eq fields, tailField_eq]
  by_cases whole : problem.k % 4 = 0
  · rw [if_pos (fields.tail.mpr whole)]
    omega
  · rw [if_neg fun zero => whole (fields.tail.mp zero)]
    omega

/-- The operands of a group, by element. -/
theorem group_elements (params : GeneratorParams) (problem : Problem)
    (group : ColumnGroup) (row : Nat) :
    ByElement params (groupContents problem group row).ops problem.k
      (fun i r => problem.a (row + i) r)
      (fun r x => problem.b (group.bytes +
        (r / 4 * (64 * group.regs) + (4 * x + r % 4)))) where
  quad round i place := by
    unfold groupContents
    simp only [byteOf_ofBytes]
  row round j lane place := by
    unfold groupContents
    simp only [byteOf_dword, bytePlace]
    congr 2
    have quotient : (4 * round + place.val) / 4 = round := by omega
    have remainder : (4 * round + place.val) % 4 = place := by omega
    rw [quotient, remainder]
    omega

/-- What a row block stores in a live lane. -/
theorem value_found
    (ready : Ready params problem group row done start state) {t : Nat}
    (inRange : t < params.cReg) {lane : Fin 16}
    (live : 16 * (t % group.regs) + lane < group.cols) :
    dword (blockAcc params state
        (fun block => groupContents problem group (row + params.MR * block))
        block t) lane =
      problem.value (row + params.MR * block + t / group.regs)
        (group.first + (16 * (t % group.regs) + lane)) := by
  have stored : LaneStored params
      (blockEntry params state block state.memory) t lane := by
    intro place
    rw [cellBytes_eq ready.within ready.fields inRange, decide_eq_true_eq]
    have index : (bytePlace lane place).val / 4 = lane := by
      simp only [bytePlace]
      omega
    rw [index]
    exact live
  have whole : problem.k ≤ 4 * problem.quads := by
    unfold Problem.quads
    omega
  have columns := ready.within.columns
  have product := dword_accAfter_eq
    (group_elements params problem group (row + params.MR * block)) lane
    whole fun r after before => by
      rw [ready.fields.regs, ready.within.layout r _ live]
      exact ready.padded r after before _ (by omega)
  have dots : dotProduct problem.k
      (problem.a (row + params.MR * block + t / group.regs))
      (fun r => problem.b (group.bytes + (r / 4 * (64 * group.regs) +
        (4 * (16 * (t % group.regs) + lane) + r % 4)))) =
        dotProduct problem.k
          (problem.a (row + params.MR * block + t / group.regs))
          (fun r => problem.bAt r
            (group.first + (16 * (t % group.regs) + lane))) := by
    congr 1
    funext r
    exact ready.within.layout r _ live
  have compensation : (if (blockEntry params state block state.memory).field
      .isLastK = 0 then 0
      else dword ((groupContents problem group
        (row + params.MR * block)).sums (t % params.bReg)) lane) =
        if problem.isLastK then
          problem.sums (group.first + (16 * (t % group.regs) + lane))
        else 0 := by
    rw [blockField_of_ne (by decide), ready.fields.regs]
    cases last : problem.isLastK with
    | false => rw [if_pos (ready.fields.isLastK.mpr last), if_neg (by decide)]
    | true =>
        have some : state.field .isLastK ≠ 0 := fun zero =>
          Bool.false_ne_true ((ready.fields.isLastK.mp zero).symm.trans last)
        rw [if_neg some, if_pos rfl]
        exact dword_ofDwords _ lane
  have old : dword ((groupContents problem group
      (row + params.MR * block)).old t) lane =
        problem.old (row + params.MR * block + t / group.regs)
          (group.first + (16 * (t % group.regs) + lane)) :=
    dword_ofDwords _ lane
  unfold blockAcc
  rw [dword_tileAcc ready.special stored, compensation, old,
    rounds_eq ready.fields, product, ready.fields.regs, dots]
  rfl

/-- The cells that a call updates. -/
def Rectangle (params : GeneratorParams) (state : State) (group : ColumnGroup)
    (row i j : Nat) : Prop :=
  row ≤ i ∧ i < row + params.MR * blocks params state ∧
    group.first ≤ j ∧ j < group.first + group.cols

/-- A cell of the rectangle holds its value behind the row blocks. -/
theorem rectangle_written
    (ready : Ready params problem group row done start state) {i j : Nat}
    (inside : Rectangle params state group row i j) {memory : Memory}
    (tiles : BlocksDone params state
      (fun block => groupContents problem group (row + params.MR * block))
      (blocks params state) memory) :
    DwordAt memory (problem.cell i j) (problem.value i j) := by
  rcases inside with ⟨lower, upper, left, right⟩
  intro byte
  have live := ready.within.live
  have registers := ready.fields.regs
  have rows : 0 < params.MR := by
    rcases Nat.eq_zero_or_pos params.MR with none | positive
    · rw [none, Nat.zero_mul] at upper
      omega
    · exact positive
  let t := (i - row) % params.MR * params.bReg + (j - group.first) / 16
  let lane : Fin 16 := ⟨(j - group.first) % 16, Nat.mod_lt _ (by decide)⟩
  have inRow : (i - row) % params.MR < params.MR := Nat.mod_lt _ rows
  have inColumn : (j - group.first) / 16 < params.bReg := by omega
  have below : (i - row) / params.MR < blocks params state :=
    Nat.div_lt_of_lt_mul (by omega)
  have inRange : t < params.cReg := accumulator_lt inRow inColumn
  have quotient : t / group.regs = (i - row) % params.MR := by
    rw [← registers]
    exact accumulator_div _ inColumn
  have remainder : t % group.regs = (j - group.first) / 16 := by
    rw [← registers]
    exact accumulator_mod _ inColumn
  have lanes : 16 * (t % group.regs) + lane = j - group.first := by
    rw [remainder]
    exact Nat.div_add_mod _ 16
  have index : (bytePlace lane byte).val / 4 = lane := by
    simp only [bytePlace]
    omega
  have place : Fin.ofNat 4 (bytePlace lane byte).val = byte := by
    apply Fin.ext
    simp only [bytePlace, Fin.val_ofNat]
    omega
  have kept : cellBytes params
      (blockEntry params state ((i - row) / params.MR) state.memory) t
      (bytePlace lane byte) = true := by
    rw [cellBytes_eq ready.within ready.fields inRange, index, lanes,
      decide_eq_true_eq]
    omega
  have inside : 16 * (t % group.regs) + lane < group.cols := by omega
  have value : dword (blockAcc params state
      (fun block => groupContents problem group (row + params.MR * block))
      ((i - row) / params.MR) t) lane = _ := value_found ready inRange inside
  have rowOf : row + params.MR * ((i - row) / params.MR) +
      t / group.regs = i := by
    have split := Nat.div_add_mod (i - row) params.MR
    rw [quotient]
    omega
  have columnOf : group.first + (16 * (t % group.regs) + lane) = j := by
    omega
  have stored := tiles.written _ below t inRange (bytePlace lane byte) kept
  rw [tile_place ready.fields, index, place, rowOf, columnOf] at stored
  rw [rowOf, columnOf] at value
  rw [stored, ← value, byteOf_dword]

/-- A kernel call updates its rectangle. -/
theorem call_updates
    (ready : Ready params problem group row done start state)
    (some : 0 < blocks params state) {code : Emitted}
    (generated : params.generateKernel = .some code) :
    ∃ final, Runs semantics code state final ∧
      problem.Updated
        (fun i j => done i j ∨ Rectangle params state group row i j) start
        final.memory ∧
      final.field = blockField params state (lastBlock params state) := by
  rcases generateKernel_runs ready.fits some
    (fun block below => blockFound ready below) generated with
    ⟨final, runs, tiles, field⟩
  refine ⟨final, runs, ⟨?_, ?_⟩, field⟩
  · intro i inRow j inColumn updated
    by_cases inside : Rectangle params state group row i j
    · exact rectangle_written ready inside tiles
    · have settled : done i j := updated.resolve_right inside
      intro byte
      have apart : ¬ InTiles params state (blocks params state)
          (offset (problem.cell i j) byte) := by
        rintro ⟨block, below, inTile⟩
        rcases inTile_cell ready below inTile with
          ⟨other, column, lower, upper, otherRow, left, right, otherColumn,
            place, same⟩
        have ends : params.MR * (block + 1) ≤
            params.MR * blocks params state := Nat.mul_le_mul_left _ below
        rcases Problem.cell_inj ready.cells inRow inColumn otherRow
          otherColumn same with ⟨rfl, rfl, _⟩
        exact inside ⟨by omega, by omega, left, right⟩
      rw [tiles.kept _ apart]
      exact ready.updated.written i inRow j inColumn settled byte
  · intro place outside
    have apart : ¬ InTiles params state (blocks params state) place := by
      rintro ⟨block, below, inTile⟩
      rcases inTile_cell ready below inTile with
        ⟨i, j, lower, upper, inRow, left, right, inColumn, byte, same⟩
      have ends : params.MR * (block + 1) ≤
          params.MR * blocks params state := Nat.mul_le_mul_left _ below
      exact outside i inRow j inColumn
        (Or.inr ⟨by omega, by omega, left, right⟩) byte same
    rw [tiles.kept place apart]
    exact ready.updated.kept place fun i inRow j inColumn settled =>
      outside i inRow j inColumn (Or.inl settled)

end Operands

end AoclDlp.Jit.S8Call
