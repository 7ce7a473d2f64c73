import AoclDlp.Jit.S8Call

/-!
# A block of at most NR columns

`executeKernel` covers a block of C by the rectangles of its kernel calls:
whole registers of columns and the masked remainder, each by full row blocks
and the rows that are left.
-/

namespace AoclDlp.Jit.S8Block

open AoclDlp.DecisionEngine.Scaling
open AoclDlp.Foundations.Assembly
open AoclDlp.Foundations.Avx512
open AoclDlp.Foundations.Lanes
open AoclDlp.Jit.S8Accumulate
open AoclDlp.Jit.S8Allocation
open AoclDlp.Jit.S8Call
open AoclDlp.Jit.S8Elements
open AoclDlp.Jit.S8Execute
open AoclDlp.Jit.S8Generator
open AoclDlp.Jit.S8Generator.GeneratorParams
open AoclDlp.Jit.S8Kernel
open AoclDlp.Jit.S8Step

/-! ## The data of a block -/

/-- What `executeKernel` relies on at a block: a generated table, room for the
registers of B, and a block with its operands. -/
structure BlockReady (jit : JitAmdZenS8) (kernelCodeBlocks : List Emitted)
    (problem : Problem) (start : Memory) : Prop where
  generated : jit.generateAllKernels = some kernelCodeBlocks
  rows : 0 < jit.MR
  unroll : 0 < jit.kUnroll
  room : (jit.MR + 1) * jit.widest + 2 ≤ numRegs
  cells : problem.Cells
  operands : problem.OperandsAt start
  olds : ∀ i < problem.m, ∀ j < problem.n,
    DwordAt start (problem.cell i j) (problem.old i j)
  padded : problem.Padded
  alphaZero : jit.alphaScalingType = .zero → problem.alpha = 0
  alphaOne : jit.alphaScalingType = .one → problem.alpha = 1
  betaZero : jit.betaScalingType = .zero → problem.beta = 0
  m : problem.m < 2 ^ 64
  k : problem.k < 2 ^ 64

section Rows

variable {jit : JitAmdZenS8} {kernelCodeBlocks : List Emitted}
variable {problem : Problem} {group : ColumnGroup} {nr : Nat} {start : Memory}
variable {done : Nat → Nat → Prop}

theorem BlockReady.special
    (ready : BlockReady jit kernelCodeBlocks problem start) (mr : Nat) :
    Specialised (jit.variant mr nr) problem.alpha problem.beta :=
  ⟨ready.alphaZero, ready.alphaOne, ready.betaZero⟩

theorem BlockReady.fits
    (ready : BlockReady jit kernelCodeBlocks problem start) {mr : Nat}
    (row : mr < jit.MR) (column : nr < jit.numNRVariants) :
    Fits (jit.variant mr nr) :=
  (jit.forall_variants Fits).mp
    ((jit.variants_fit_iff ready.rows).mpr ready.room) mr row nr column

/-- The cells of a group in the first rows. -/
def GroupCells (group : ColumnGroup) (rows i j : Nat) : Prop :=
  i < rows ∧ group.first ≤ j ∧ j < group.first + group.cols

/-- The call with the full row blocks. -/
theorem fullRows_updates
    (ready : BlockReady jit kernelCodeBlocks problem start)
    (column : nr < jit.numNRVariants) (within : group.Within problem)
    {before : State}
    (fields : CallFields (jit.variant 0 nr) problem group 0 before.field)
    (updated : problem.Updated done start before.memory)
    (fresh : ∀ i j, group.first ≤ j → j < group.first + group.cols →
      ¬ done i j) :
    ∃ middle,
      (if jit.MR ≤ problem.m then
        JitAmdZenS8.Calls kernelCodeBlocks (0 * jit.numNRVariants + nr)
          (JitAmdZenS8.setField .mIter
            (BitVec.ofNat 64 (problem.m / jit.MR)) before) middle
      else middle = before) ∧
      problem.Updated (fun i j => done i j ∨
        GroupCells group (jit.MR * (problem.m / jit.MR)) i j) start
        middle.memory ∧
      ∀ name, name ≠ .mIter → name ≠ .postOpCI →
        middle.field name = before.field name := by
  by_cases full : jit.MR ≤ problem.m
  · simp only [if_pos full]
    let state := JitAmdZenS8.setField .mIter
      (BitVec.ofNat 64 (problem.m / jit.MR)) before
    have count : blocks (jit.variant 0 nr) state = problem.m / jit.MR := by
      have small : problem.m / jit.MR < 2 ^ 64 :=
        Nat.lt_of_le_of_lt (Nat.div_le_self _ _) ready.m
      have counter : state.field .mIter =
          BitVec.ofNat 64 (problem.m / jit.MR) := by
        rw [JitAmdZenS8.setField_field, Function.update_self]
      rw [blocks, counter, BitVec.toNat_ofNat, Nat.mod_eq_of_lt small]
      rfl
    have positive : 0 < problem.m / jit.MR := Nat.div_pos full ready.rows
    have keeps (name : GemmParams) (other : name ≠ .mIter) :
        state.field name = before.field name :=
      Function.update_of_ne other _ _
    have call : Ready (jit.variant 0 nr) problem group 0 done start state :=
      { fits := ready.fits ready.rows column
        cells := ready.cells
        operands := ready.operands
        olds := ready.olds
        padded := ready.padded
        special := ready.special 0
        within := within
        fields := fields.move rfl rfl rfl
          (fun name out => keeps name fun same =>
            out (same ▸ by decide))
          ((keeps .a (by decide)).trans fields.a)
          (fun loops => (keeps .psA (by decide)).trans (fields.psA loops))
          ((keeps .c (by decide)).trans fields.c)
        rows := by
          rw [count, Nat.zero_add]
          exact Nat.mul_div_le _ _
        updated := updated
        fresh := fun i j _ left right => fresh i j left right }
    rcases jit.kernelCodeBlocks_get ready.generated ready.rows column with
      ⟨code, here, generated⟩
    rcases call_updates call (by omega) generated with
      ⟨final, runs, done, field⟩
    refine ⟨final, ⟨code, here, runs⟩, done.congr fun i _ j _ => ?_, ?_⟩
    · unfold Rectangle GroupCells
      rw [count, Nat.zero_add]
      have rows : (jit.variant 0 nr).MR = jit.MR := rfl
      rw [rows]
      simp
    · intro name counter other
      rw [field, blockField, Function.update_of_ne other]
      exact keeps name counter
  · simp only [if_neg full]
    have none : problem.m / jit.MR = 0 := Nat.div_eq_of_lt (by omega)
    refine ⟨before, rfl, updated.congr fun i _ j _ => ?_,
      fun _ _ _ => rfl⟩
    rw [none, Nat.mul_zero]
    simp [GroupCells]

/-- A pointer into the block of C is not null. -/
theorem column_nonnull (cells : problem.Cells) {first : Nat}
    (inside : first < problem.n) :
    offset problem.cPtr (4 * first) ≠ 0 := by
  intro zero
  have extent := cells.extent
  have positive : 0 < problem.cPtr.toNat := by
    rcases Nat.eq_zero_or_pos problem.cPtr.toNat with none | some
    · exact absurd (BitVec.eq_of_toNat_eq none) cells.nonnull
    · exact some
  have number := congrArg BitVec.toNat zero
  have literal : (0 : BitVec 64).toNat = 0 := rfl
  rw [offset, BitVec.toNat_add, BitVec.toNat_ofNat, Nat.add_mod_mod,
    Nat.mod_eq_of_lt (by omega), literal] at number
  omega

/-- The parameters of the call with the rows that are left. -/
theorem partialFields (cells : problem.Cells) (within : group.Within problem)
    (some : 0 < group.cols) {mr : Nat} (rest : mr ≠ 0) {before middle : State}
    (fields : CallFields (jit.variant 0 nr) problem group 0 before.field)
    (kept : ∀ name, name ∉ rowFields →
      middle.field name = before.field name)
    (a : middle.field .a = before.field .a)
    (c : middle.field .c = before.field .c) (pieces : Nat) :
    CallFields (jit.variant mr nr) problem group (jit.MR * pieces)
      (JitAmdZenS8.setField .c
        (JitAmdZenS8.offsetOrNull (middle.field .c)
          (BitVec.ofNat 64 pieces * BitVec.ofNat 64 jit.MR *
            middle.field .rsC))
        (JitAmdZenS8.setField .a
          (middle.field .a +
            BitVec.ofNat 64 pieces * middle.field .psA) middle)).field := by
  have columns := within.columns
  have regs : (jit.variant mr nr).bReg = (jit.variant 0 nr).bReg := by
    rw [JitAmdZenS8.variant_bReg, JitAmdZenS8.variant_bReg]
  have pointer : middle.field .c = offset problem.cPtr (4 * group.first) := by
    rw [c, fields.c, Nat.mul_zero, Nat.zero_add]
  refine fields.move rfl regs rfl ?_ ?_ ?_ ?_
  · intro name out
    have notA : name ≠ .a := fun same => out (same ▸ by decide)
    have notC : name ≠ .c := fun same => out (same ▸ by decide)
    rw [JitAmdZenS8.setField_field, Function.update_of_ne notC,
      JitAmdZenS8.setField_field, Function.update_of_ne notA]
    exact kept name out
  · rw [JitAmdZenS8.setField_field, Function.update_of_ne (by decide),
      JitAmdZenS8.setField_field, Function.update_self, a, fields.a,
      Nat.mul_zero, offset_zero, kept .psA (by decide), fields.psA rfl]
    have rows : (jit.variant 0 nr).MR = jit.MR := rfl
    rw [rows]
    simp only [offset, BitVec.ofNat_mul]
    ring
  · intro loops
    exact absurd (of_decide_eq_true loops) rest
  · rw [JitAmdZenS8.setField_field, Function.update_self, pointer,
      JitAmdZenS8.offsetOrNull, if_neg (column_nonnull cells (by omega)),
      kept .rsC (by decide), fields.rsC]
    simp only [offset, BitVec.ofNat_mul, BitVec.ofNat_add, ofNat_four]
    ring

/-- The rows of a group. -/
theorem executesRows_updates
    (ready : BlockReady jit kernelCodeBlocks problem start)
    (column : nr < jit.numNRVariants) (within : group.Within problem)
    (some : 0 < group.cols) {before : State}
    (fields : CallFields (jit.variant 0 nr) problem group 0 before.field)
    (updated : problem.Updated done start before.memory)
    (fresh : ∀ i j, group.first ≤ j → j < group.first + group.cols →
      ¬ done i j) :
    ∃ after, jit.ExecutesRows kernelCodeBlocks problem.m nr before after ∧
      problem.Updated
        (fun i j => done i j ∨ GroupCells group problem.m i j) start
        after.memory ∧
      ∀ name, name ∉ rowFields → after.field name = before.field name := by
  rcases fullRows_updates ready column within fields updated fresh with
    ⟨middle, first, halfway, same⟩
  have kept (name : GemmParams) (out : name ∉ rowFields) :
      middle.field name = before.field name :=
    same name (fun equal => out (equal ▸ by decide))
      fun equal => out (equal ▸ by decide)
  have split := Nat.div_add_mod problem.m jit.MR
  by_cases whole : problem.m % jit.MR = 0
  · refine ⟨middle, ⟨middle, first, ?_⟩, ?_, kept⟩
    · rw [whole, if_neg (by simp)]
    · have rows : jit.MR * (problem.m / jit.MR) = problem.m := by omega
      rw [rows] at halfway
      exact halfway
  · have left : problem.m % jit.MR < jit.MR := Nat.mod_lt _ ready.rows
    have partialCall := partialFields ready.cells within some whole fields
      kept (same .a (by decide) (by decide))
      (same .c (by decide) (by decide)) (problem.m / jit.MR)
    generalize entered : JitAmdZenS8.setField .c _
      (JitAmdZenS8.setField .a _ middle) = state at partialCall
    have memory : state.memory = middle.memory := by rw [← entered]; rfl
    have single : blocks (jit.variant (problem.m % jit.MR) nr) state = 1 := by
      simp [blocks, JitAmdZenS8.variant, whole]
    have rowsOf : (jit.variant (problem.m % jit.MR) nr).MR =
        problem.m % jit.MR := if_neg whole
    have call : Ready (jit.variant (problem.m % jit.MR) nr) problem group
        (jit.MR * (problem.m / jit.MR))
        (fun i j => done i j ∨
          GroupCells group (jit.MR * (problem.m / jit.MR)) i j) start
        state :=
      { fits := ready.fits left column
        cells := ready.cells
        operands := ready.operands
        olds := ready.olds
        padded := ready.padded
        special := ready.special _
        within := within
        fields := partialCall
        rows := by
          rw [single, rowsOf]
          omega
        updated := memory ▸ halfway
        fresh := by
          rintro i j lower leftOf rightOf (settled | ⟨above, _⟩)
          · exact fresh i j leftOf rightOf settled
          · omega }
    rcases jit.kernelCodeBlocks_get ready.generated left column with
      ⟨code, here, generated⟩
    rcases call_updates call (by omega) generated with
      ⟨final, runs, ended, field⟩
    refine ⟨final, ⟨middle, first, ?_⟩, ended.congr fun i inRow j _ => ?_, ?_⟩
    · rw [if_pos whole]
      exact ⟨code, here, entered ▸ runs⟩
    · unfold Rectangle GroupCells
      rw [single, rowsOf]
      constructor
      · rintro ((settled | ⟨_, columns⟩) | ⟨_, _, columns⟩)
        · exact Or.inl settled
        · exact Or.inr ⟨inRow, columns⟩
        · exact Or.inr ⟨inRow, columns⟩
      · rintro (settled | ⟨_, columns⟩)
        · exact Or.inl (Or.inl settled)
        · rcases Nat.lt_or_ge i (jit.MR * (problem.m / jit.MR)) with
            upper | lower
          · exact Or.inl (Or.inr ⟨upper, columns⟩)
          · exact Or.inr ⟨lower, by omega, columns⟩
    · intro name out
      have other : name ≠ .postOpCI := fun same => out (same ▸ by decide)
      have notA : name ≠ .a := fun same => out (same ▸ by decide)
      have notC : name ≠ .c := fun same => out (same ▸ by decide)
      rw [field, blockField, Function.update_of_ne other, ← entered,
        JitAmdZenS8.setField_field, Function.update_of_ne notC,
        JitAmdZenS8.setField_field, Function.update_of_ne notA]
      exact kept name out

end Rows

/-! ## The two groups of a block -/

/-- The columns in whole registers. -/
def fullGroup (problem : Problem) : ColumnGroup where
  first := 0
  cols := problem.wholeCols
  regs := problem.n / 16
  bytes := 0

/-- The columns behind them. -/
def restGroup (problem : Problem) : ColumnGroup where
  first := problem.wholeCols
  cols := problem.n % 16
  regs := 1
  bytes := 4 * problem.wholeCols * problem.quads

theorem fullGroup_within (problem : Problem) :
    (fullGroup problem).Within problem where
  columns := by
    unfold fullGroup Problem.wholeCols
    simp only
    omega
  live := Nat.le_refl _
  sums := by
    unfold fullGroup Problem.registers
    simp only
    omega
  strip := by
    have registers : problem.n / 16 ≤ problem.registers := by
      unfold Problem.registers
      omega
    have bytes := Nat.mul_le_mul_left problem.quads registers
    unfold fullGroup
    simp only
    omega
  layout r x below := by
    have inside : 0 + x < problem.wholeCols := by
      rw [Nat.zero_add]
      exact below
    have width : 64 * (problem.n / 16) = 4 * problem.wholeCols := by
      unfold Problem.wholeCols
      omega
    unfold fullGroup Problem.bAt
    simp only
    rw [if_pos inside, width, Nat.zero_add, Nat.zero_add]

theorem restGroup_within {problem : Problem} (some : 0 < problem.n % 16) :
    (restGroup problem).Within problem where
  columns := by
    unfold restGroup Problem.wholeCols
    simp only
    omega
  live := by
    unfold restGroup
    simp only
    omega
  sums := by
    unfold restGroup Problem.wholeCols Problem.registers
    simp only
    omega
  strip := by
    have registers : problem.registers = problem.n / 16 + 1 := by
      unfold Problem.registers
      omega
    unfold restGroup Problem.wholeCols
    simp only [registers]
    apply le_of_eq
    ring
  layout r x below := by
    have outside : ¬ problem.wholeCols + x < problem.wholeCols := by omega
    unfold restGroup Problem.bAt
    simp only
    rw [if_neg outside, Nat.add_sub_cancel_left, Nat.mul_one]

/-! ## The parameters of a block -/

/-- The parameters that `executeKernel` receives. -/
structure BlockFields (problem : Problem) (field : GemmParams → BitVec 64) :
    Prop where
  a : field .a = problem.aPtr
  b : field .b = problem.bPtr
  c : field .c = problem.cPtr
  rsA : field .rsA = BitVec.ofNat 64 problem.rsA
  csA : field .csA = 4
  psA : field .psA = BitVec.ofNat 64 problem.rsA
  rsC : field .rsC = BitVec.ofNat 64 problem.rsC
  alpha : field .alpha = problem.alphaPtr
  beta : field .beta = problem.betaPtr
  isLastK : field .isLastK = 0 ↔ problem.isLastK = false
  sums : field .bColSumVec + field .bSumOffset * 4 = problem.sumsPtr

/-- The parameters that every call of a block shares. -/
structure EntryFields (jit : JitAmdZenS8) (problem : Problem)
    (field : GemmParams → BitVec 64) : Prop where
  rsA : field .rsA = BitVec.ofNat 64 problem.rsA
  csA : field .csA = 4
  psA : field .psA = BitVec.ofNat 64 (problem.rsA * jit.MR)
  rsC : field .rsC = BitVec.ofNat 64 problem.rsC
  alpha : field .alpha = problem.alphaPtr
  beta : field .beta = problem.betaPtr
  kIterBP : field .kIterBP =
    BitVec.ofNat 64 (problem.k / (jit.kUnroll * vnniConst))
  kLeft : field .kLeft =
    BitVec.ofNat 64 (problem.k % (jit.kUnroll * vnniConst))
  kLeftIter : field .kLeftIter =
    BitVec.ofNat 64 (problem.k % (jit.kUnroll * vnniConst) / vnniConst)
  kLeftRem : field .kLeftRem =
    BitVec.ofNat 64 (problem.k % (jit.kUnroll * vnniConst) % vnniConst)
  kLeftmask : field .kLeftmask = BitVec.ofNat 64
    (1 <<< (problem.k % (jit.kUnroll * vnniConst) % vnniConst) - 1)
  isLastK : field .isLastK = 0 ↔ problem.isLastK = false

section Parameters

variable {jit : JitAmdZenS8} {problem : Problem}
variable {field : GemmParams → BitVec 64} {state : State}

theorem prepare_fields (fields : BlockFields problem state.field) :
    EntryFields jit problem (jit.prepare problem.k state).field where
  rsA := by simpa [JitAmdZenS8.prepare] using fields.rsA
  csA := by simpa [JitAmdZenS8.prepare] using fields.csA
  psA := by
    simp only [JitAmdZenS8.prepare, JitAmdZenS8.setField_field,
      Function.update_self, fields.psA, Nat.mul_comm, BitVec.ofNat_mul]
  rsC := by simpa [JitAmdZenS8.prepare] using fields.rsC
  alpha := by simpa [JitAmdZenS8.prepare] using fields.alpha
  beta := by simpa [JitAmdZenS8.prepare] using fields.beta
  kIterBP := by simp [JitAmdZenS8.prepare]
  kLeft := by simp [JitAmdZenS8.prepare]
  kLeftIter := by simp [JitAmdZenS8.prepare]
  kLeftRem := by simp [JitAmdZenS8.prepare]
  kLeftmask := by simp [JitAmdZenS8.prepare]
  isLastK := by simpa [JitAmdZenS8.prepare] using fields.isLastK

/-- What is left of K behind its last whole quad. -/
theorem left_mod (k unroll : Nat) :
    k % (unroll * vnniConst) % vnniConst = k % 4 := by
  unfold vnniConst
  rw [Nat.mul_comm, Nat.mod_mul_right_mod]

theorem left_div (k unroll : Nat) :
    k % (unroll * vnniConst) / vnniConst = k / 4 % unroll := by
  unfold vnniConst
  rw [Nat.mul_comm, Nat.mod_mul_right_div_self]

theorem iterations_div (k unroll : Nat) :
    k / (unroll * vnniConst) = k / 4 / unroll := by
  unfold vnniConst
  rw [Nat.mul_comm, Nat.div_div_eq_div_mul]

/-- A small number is zero as a word only if it is zero. -/
theorem ofNat_eq_zero {value : Nat} (small : value < 2 ^ 64) :
    BitVec.ofNat 64 value = 0 ↔ value = 0 := by
  constructor
  · intro zero
    have number := congrArg BitVec.toNat zero
    rw [BitVec.toNat_ofNat, Nat.mod_eq_of_lt small] at number
    exact number
  · rintro rfl
    rfl

/-- The parameters of a group. -/
theorem CallFields.of_entry {group : ColumnGroup} {nr : Nat}
    (small : problem.k < 2 ^ 64) (entry : EntryFields jit problem field)
    (a : field .a = problem.aPtr)
    (b : field .b = offset problem.bPtr group.bytes)
    (rsB : field .rsB = BitVec.ofNat 64 (64 * group.regs))
    (c : field .c = offset problem.cPtr (4 * group.first))
    (sums : field .bColSumVec + field .bSumOffset * 4 =
      offset problem.sumsPtr (4 * group.first))
    (regs : max 1 nr = group.regs)
    (whole : nr ≠ 0 → group.cols = 16 * group.regs)
    (maskS32 : nr = 0 →
      field .maskS32 = BitVec.ofNat 64 (2 ^ group.cols - 1)) :
    CallFields (jit.variant 0 nr) problem group 0 field where
  a := by rw [a, Nat.mul_zero, offset_zero]
  psA _ := entry.psA
  rsA := entry.rsA
  csA := entry.csA
  b := b
  rsB := rsB
  c := by rw [c, Nat.mul_zero, Nat.zero_add]
  rsC := entry.rsC
  alpha := entry.alpha
  beta := entry.beta
  full := by
    have iterations : problem.k / 4 / jit.kUnroll ≤ problem.k :=
      (Nat.div_le_self _ _).trans (Nat.div_le_self _ _)
    have rest : problem.k / 4 % jit.kUnroll ≤ problem.k :=
      (Nat.mod_le _ _).trans (Nat.div_le_self _ _)
    have unroll : (jit.variant 0 nr).kUnroll = jit.kUnroll := rfl
    have split := Nat.div_add_mod (problem.k / 4) jit.kUnroll
    rw [entry.kIterBP, entry.kLeftIter, unroll, iterations_div, left_div,
      BitVec.toNat_ofNat, BitVec.toNat_ofNat,
      Nat.mod_eq_of_lt (by omega), Nat.mod_eq_of_lt (by omega), Nat.mul_comm]
    split_ifs with single
    · rw [single, Nat.div_one, Nat.one_mul, Nat.add_zero]
    · exact split
  tail := by
    have left : problem.k % (jit.kUnroll * vnniConst) ≤ problem.k :=
      Nat.mod_le _ _
    have rest : problem.k % 4 ≤ problem.k := Nat.mod_le _ _
    have unroll : (jit.variant 0 nr).kUnroll = jit.kUnroll := rfl
    unfold tailField
    rw [unroll]
    split_ifs with single
    · rw [entry.kLeft, ofNat_eq_zero (by omega), single]
      rfl
    · rw [entry.kLeftRem, left_mod, ofNat_eq_zero (by omega)]
  kLeftmask := by
    rw [entry.kLeftmask, left_mod, Nat.one_shiftLeft]
  isLastK := entry.isLastK
  sums := sums
  regs := (jit.variant_bReg 0 nr).trans regs
  whole masked := whole (of_decide_eq_false masked)
  maskS32 masked := by
    have none : nr = 0 := of_decide_eq_true masked
    exact ⟨by rw [← regs, none]; rfl, maskS32 none⟩

/-- The fields in which the calls of a block may differ. -/
def groupFields : List GemmParams :=
  [.b, .rsB, .maskS32, .bSumOffset] ++ rowFields

theorem EntryFields.congr {changed : GemmParams → BitVec 64}
    (entry : EntryFields jit problem field)
    (same : ∀ name, name ∉ groupFields → changed name = field name) :
    EntryFields jit problem changed where
  rsA := (same .rsA (by decide)).trans entry.rsA
  csA := (same .csA (by decide)).trans entry.csA
  psA := (same .psA (by decide)).trans entry.psA
  rsC := (same .rsC (by decide)).trans entry.rsC
  alpha := (same .alpha (by decide)).trans entry.alpha
  beta := (same .beta (by decide)).trans entry.beta
  kIterBP := (same .kIterBP (by decide)).trans entry.kIterBP
  kLeft := (same .kLeft (by decide)).trans entry.kLeft
  kLeftIter := (same .kLeftIter (by decide)).trans entry.kLeftIter
  kLeftRem := (same .kLeftRem (by decide)).trans entry.kLeftRem
  kLeftmask := (same .kLeftmask (by decide)).trans entry.kLeftmask
  isLastK := by
    rw [same .isLastK (by decide)]
    exact entry.isLastK

end Parameters

/-! ## The whole block -/

section Whole

variable {jit : JitAmdZenS8} {kernelCodeBlocks : List Emitted}
variable {problem : Problem} {state : State} {aPtr cJr : BitVec 64}

/-- The mask of the live columns of the last register. -/
theorem maskS32_eq {count : Nat} (small : count < 16) :
    0xFFFF >>> (numElemsPerReg - count) = 2 ^ count - 1 := by
  have all : ∀ count < 16,
      0xFFFF >>> (numElemsPerReg - count) = 2 ^ count - 1 := by
    decide
  exact all count small

theorem prepareFull_same (nFullpieces : Nat) {name : GemmParams}
    (out : name ∉ groupFields) :
    (JitAmdZenS8.prepareFull aPtr cJr nFullpieces state).field name =
      state.field name := by
  have others : name ≠ .rsB ∧ name ≠ .a ∧ name ≠ .c :=
    ⟨fun same => out (same ▸ by decide), fun same => out (same ▸ by decide),
      fun same => out (same ▸ by decide)⟩
  simp [JitAmdZenS8.prepareFull, others]

theorem advance_same (k nFullpieces : Nat) {name : GemmParams}
    (out : name ∉ groupFields) :
    (JitAmdZenS8.advance k nFullpieces aPtr state).field name =
      state.field name := by
  have others : name ≠ .b ∧ name ≠ .bSumOffset ∧ name ≠ .postOpCI :=
    ⟨fun same => out (same ▸ by decide), fun same => out (same ▸ by decide),
      fun same => out (same ▸ by decide)⟩
  simp [JitAmdZenS8.advance, others]

theorem prepareMasked_same (nRemainder : Nat) {name : GemmParams}
    (out : name ∉ groupFields) :
    (JitAmdZenS8.prepareMasked aPtr cJr nRemainder state).field name =
      state.field name := by
  have others : name ≠ .a ∧ name ≠ .c ∧ name ≠ .rsB ∧ name ≠ .maskS32 :=
    ⟨fun same => out (same ▸ by decide), fun same => out (same ▸ by decide),
      fun same => out (same ▸ by decide), fun same => out (same ▸ by decide)⟩
  simp [JitAmdZenS8.prepareMasked, others]

/-- The parameters of the calls over whole registers. -/
theorem prepareFull_fields (small : problem.k < 2 ^ 64)
    (entry : EntryFields jit problem state.field)
    (b : state.field .b = problem.bPtr)
    (sums : state.field .bColSumVec + state.field .bSumOffset * 4 =
      problem.sumsPtr) (some : 0 < problem.n / 16) :
    CallFields (jit.variant 0 (problem.n / 16)) problem (fullGroup problem) 0
      (JitAmdZenS8.prepareFull problem.aPtr problem.cPtr (problem.n / 16)
        state).field := by
  refine CallFields.of_entry small
    (entry.congr fun name out => prepareFull_same (problem.n / 16) out)
    ?_ ?_ ?_ ?_ ?_ ?_ ?_ ?_
  · simp [JitAmdZenS8.prepareFull]
  · simp [JitAmdZenS8.prepareFull, b, fullGroup]
  · have width : problem.n / 16 * numElemsPerReg * vnniConst =
        64 * (problem.n / 16) := by
      unfold numElemsPerReg vnniConst regBytes
      omega
    simp [JitAmdZenS8.prepareFull, width, fullGroup]
  · simp [JitAmdZenS8.prepareFull, fullGroup]
  · simpa [JitAmdZenS8.prepareFull, fullGroup] using sums
  · exact max_eq_right some
  · intro _
    rfl
  · intro none
    omega

/-- The parameters of the calls over the remainder. -/
theorem prepareMasked_fields (small : problem.k < 2 ^ 64)
    (entry : EntryFields jit problem state.field)
    (b : state.field .b =
      offset problem.bPtr (4 * problem.wholeCols * problem.quads))
    (sums : state.field .bColSumVec + state.field .bSumOffset * 4 =
      offset problem.sumsPtr (4 * problem.wholeCols)) :
    CallFields (jit.variant 0 0) problem (restGroup problem) 0
      (JitAmdZenS8.prepareMasked problem.aPtr
        (offset problem.cPtr (4 * problem.wholeCols)) (problem.n % 16)
        state).field := by
  refine CallFields.of_entry small
    (entry.congr fun name out => prepareMasked_same (problem.n % 16) out)
    ?_ ?_ ?_ ?_ ?_ ?_ ?_ ?_
  · simp [JitAmdZenS8.prepareMasked]
  · simp [JitAmdZenS8.prepareMasked, b, restGroup]
  · simp [JitAmdZenS8.prepareMasked, restGroup, numElemsPerReg, vnniConst,
      regBytes]
  · simp [JitAmdZenS8.prepareMasked, restGroup]
  · simpa [JitAmdZenS8.prepareMasked, restGroup] using sums
  · rfl
  · intro some
    exact absurd rfl some
  · intro _
    have live : problem.n % 16 < 16 := Nat.mod_lt _ (by decide)
    have mask := maskS32_eq live
    simp [JitAmdZenS8.prepareMasked, restGroup, mask]

/-- What the calls over whole registers leave to the remainder. -/
theorem advance_fields (before state : State)
    (b : before.field .b = problem.bPtr)
    (sums : before.field .bColSumVec + before.field .bSumOffset * 4 =
      problem.sumsPtr)
    (kept : ∀ name, name ∉ rowFields → state.field name = before.field name)
    (postOpCI : BitVec 64) :
    let after := JitAmdZenS8.advance problem.k (problem.n / 16) postOpCI state
    after.field .b =
        offset problem.bPtr (4 * problem.wholeCols * problem.quads) ∧
      after.field .bColSumVec + after.field .bSumOffset * 4 =
        offset problem.sumsPtr (4 * problem.wholeCols) := by
  constructor
  · have bytes : problem.n / 16 * numElemsPerReg *
        ((problem.k + vnniConst - 1) / vnniConst * vnniConst) =
          4 * problem.wholeCols * problem.quads := by
      have elements : numElemsPerReg = 16 := rfl
      have group : (problem.k + vnniConst - 1) / vnniConst * vnniConst =
          problem.quads * 4 := rfl
      rw [elements, group, Problem.wholeCols]
      ring
    simp [JitAmdZenS8.advance, kept .b (by decide), b, bytes, offset]
  · have count : problem.n / 16 * 16 = problem.wholeCols := Nat.mul_comm _ _
    simp only [JitAmdZenS8.advance, JitAmdZenS8.setField_field]
    rw [Function.update_of_ne (by decide), Function.update_of_ne (by decide),
      Function.update_of_ne (by decide), Function.update_of_ne (by decide),
      Function.update_self, kept .bColSumVec (by decide),
      kept .bSumOffset (by decide), ← sums, count]
    simp only [offset, BitVec.ofNat_mul, ofNat_four]
    ring

/-- The calls over whole registers, up to the remainder. -/
theorem fullGroup_updates
    (ready : BlockReady jit kernelCodeBlocks problem state.memory)
    (columns : problem.n ≤ jit.NR) (fields : BlockFields problem state.field) :
    let entry := jit.prepare problem.k state
    ∃ middle,
      (if 0 < problem.n / 16 then
        ∃ after,
          jit.ExecutesRows kernelCodeBlocks problem.m (problem.n / 16)
            (JitAmdZenS8.prepareFull (state.field .a) (state.field .c)
              (problem.n / 16) entry) after ∧
          middle = JitAmdZenS8.advance problem.k (problem.n / 16)
            (entry.field .postOpCI) after
      else middle = entry) ∧
      problem.Updated (fun _ j => j < problem.wholeCols) state.memory
        middle.memory ∧
      EntryFields jit problem middle.field ∧
      middle.field .b =
        offset problem.bPtr (4 * problem.wholeCols * problem.quads) ∧
      middle.field .bColSumVec + middle.field .bSumOffset * 4 =
        offset problem.sumsPtr (4 * problem.wholeCols) := by
  intro entry
  have shared : EntryFields jit problem entry.field := prepare_fields fields
  have bField : entry.field .b = problem.bPtr := by
    simpa [entry, JitAmdZenS8.prepare] using fields.b
  have sums : entry.field .bColSumVec + entry.field .bSumOffset * 4 =
      problem.sumsPtr := by
    simpa [entry, JitAmdZenS8.prepare] using fields.sums
  have none : problem.Updated (fun _ _ => False) state.memory entry.memory :=
    ⟨fun _ _ _ _ absent => absent.elim, fun _ _ => rfl⟩
  by_cases some : 0 < problem.n / 16
  · have column : problem.n / 16 < jit.numNRVariants :=
      Nat.lt_succ_of_le (Nat.div_le_div_right columns)
    have call := prepareFull_fields ready.k shared bField sums some
    rw [← fields.a, ← fields.c] at call
    rcases executesRows_updates ready column (fullGroup_within problem)
        (Nat.mul_pos (by decide) some) call none (fun _ _ _ _ => id) with
      ⟨after, executes, updated, kept⟩
    have same (name : GemmParams) (out : name ∉ groupFields) :
        after.field name = entry.field name :=
      (kept name fun inRow => out (List.mem_append_right _ inRow)).trans
        (prepareFull_same _ out)
    have left := advance_fields
      (JitAmdZenS8.prepareFull (state.field .a) (state.field .c)
        (problem.n / 16) entry) after
      (by simpa [JitAmdZenS8.prepareFull] using bField)
      (by simpa [JitAmdZenS8.prepareFull] using sums) kept
      (entry.field .postOpCI)
    refine ⟨_, ?_, ?_, ?_, left.1, left.2⟩
    · rw [if_pos some]
      exact ⟨after, executes, rfl⟩
    · refine updated.congr fun i inRow j _ => ?_
      unfold GroupCells fullGroup
      simp [inRow]
    · exact shared.congr fun name out =>
        (advance_same _ _ out).trans (same name out)
  · have empty : problem.wholeCols = 0 := by
      unfold Problem.wholeCols
      omega
    refine ⟨entry, if_neg some ▸ rfl, ?_, shared, ?_, ?_⟩
    · rw [empty]
      exact none.congr fun _ _ _ _ => by simp
    · rw [empty, Nat.mul_zero, Nat.zero_mul, offset_zero]
      exact bField
    · rw [empty, Nat.mul_zero, offset_zero]
      exact sums

/-- The call for a block writes every cell of it, and nothing else. -/
theorem executeKernel_updates
    (ready : BlockReady jit kernelCodeBlocks problem state.memory)
    (columns : problem.n ≤ jit.NR) (fields : BlockFields problem state.field) :
    ∃ final,
      jit.ExecuteKernel kernelCodeBlocks problem.m problem.n problem.k state
        final ∧
      problem.Updated (fun _ _ => True) state.memory final.memory := by
  have size : (if jit.getProcessBlockSize ≤ problem.n then
      jit.getProcessBlockSize else problem.n) = problem.n := by
    unfold JitAmdZenS8.getProcessBlockSize
    split_ifs <;> omega
  have pieces : problem.n / numElemsPerReg = problem.n / 16 := rfl
  have remainder : problem.n % numElemsPerReg = problem.n % 16 := rfl
  have split := Nat.div_add_mod problem.n 16
  have whole : problem.wholeCols = 16 * (problem.n / 16) := rfl
  rcases fullGroup_updates ready columns fields with
    ⟨middle, first, updated, shared, b, sums⟩
  unfold JitAmdZenS8.ExecuteKernel
  simp only [size, pieces, remainder]
  by_cases rest : 0 < problem.n % 16
  · have cJr : (if 0 < problem.n / 16 then
          JitAmdZenS8.offsetOrNull (state.field .c)
            (BitVec.ofNat 64 (problem.n / 16 * numElemsPerReg))
        else state.field .c) =
          offset problem.cPtr (4 * problem.wholeCols) := by
      rw [fields.c]
      split_ifs with some
      · have nonnull := ready.cells.nonnull
        have count : problem.n / 16 * numElemsPerReg = problem.wholeCols :=
          Nat.mul_comm _ _
        rw [JitAmdZenS8.offsetOrNull, if_neg nonnull, count]
        simp only [offset, BitVec.ofNat_mul, ofNat_four]
      · have empty : problem.wholeCols = 0 := by omega
        rw [empty, Nat.mul_zero, offset_zero]
    have call : CallFields (jit.variant 0 0) problem (restGroup problem) 0 _ :=
      prepareMasked_fields ready.k shared b sums
    rw [← cJr, ← fields.a] at call
    rcases executesRows_updates ready (Nat.succ_pos _)
        (restGroup_within rest) rest call updated
        (fun i j lower _ below => by
          unfold restGroup at lower
          simp only at lower
          omega) with ⟨final, executes, ended, _⟩
    refine ⟨final, ⟨middle, first, ?_⟩, ?_⟩
    · rw [if_pos rest]
      exact executes
    · refine ended.congr fun i inRow j inColumn => ?_
      unfold GroupCells restGroup
      simp only [inRow, iff_true, true_and]
      omega
  · refine ⟨middle, ⟨middle, first, by rw [if_neg rest]⟩, ?_⟩
    refine updated.congr fun i _ j inColumn => ?_
    simp only [iff_true]
    omega

end Whole

end AoclDlp.Jit.S8Block
