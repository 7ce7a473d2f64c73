import AoclDlp.Jit.S8Store

/-!
# A generated kernel

A kernel loads its parameters and runs one row block, or `mIter` of them with
`mLoop`.  The invariant of the row blocks says which registers a block starts
with, that the tiles before it hold their products, and that nothing else in
memory has changed.  What a block reads it has to find in the memory that the
blocks before it do not write.
-/

namespace AoclDlp.Jit.S8Kernel

open AoclDlp.DecisionEngine.Scaling
open AoclDlp.Foundations.Assembly
open AoclDlp.Foundations.Avx512
open AoclDlp.Foundations.Lanes
open AoclDlp.Jit.S8Accumulate
open AoclDlp.Jit.S8Allocation
open AoclDlp.Jit.S8Generator
open AoclDlp.Jit.S8Generator.GeneratorParams
open AoclDlp.Jit.S8Scale
open AoclDlp.Jit.S8Step
open AoclDlp.Jit.S8Store

/-! ## Moving the pointer of C -/

theorem scaled_double (stride : BitVec 64) (left shift : Nat) :
    scaled stride (left * 2 ^ shift) =
      scaled stride (left % 2 * 2 ^ shift) +
        scaled stride (left / 2 * 2 ^ (shift + 1)) := by
  rw [← scaled_add]
  congr 1
  have split := Nat.div_add_mod left 2
  have power : 2 ^ (shift + 1) = 2 * 2 ^ shift := by ring
  calc
    left * 2 ^ shift = (2 * (left / 2) + left % 2) * 2 ^ shift := by
      rw [split]
    _ = left % 2 * 2 ^ shift + left / 2 * 2 ^ (shift + 1) := by
      rw [power]
      ring

theorem shiftLeft_eq (value : BitVec 64) (shift : Nat) :
    value <<< shift = scaled value (2 ^ shift) := by
  unfold scaled
  rw [BitVec.shiftLeft_eq_mul_twoPow, BitVec.mul_comm]
  congr 1
  apply BitVec.eq_of_toNat_eq
  simp

/-- Everything but the pointer of C and a scratch register. -/
structure Moved (before : State) (distance : BitVec 64) (after : State) :
    Prop where
  cPtr : after.gpr regCPtr = before.gpr regCPtr + distance
  gpr : ∀ register, register ≠ regCPtr → register ≠ regTmp1 →
    after.gpr register = before.gpr register
  opmask : after.opmask = before.opmask
  field : after.field = before.field
  memory : after.memory = before.memory

/-- One bit of `moveCPtr`. -/
theorem moveBit_runs (state : State) (shift : Nat) :
    ∃ next, execAll semantics
        (if 2 ^ shift ≤ 8 then
          [.lea regCPtr (ptrScaled regCPtr regRsC (2 ^ shift))]
        else
          [.mov regTmp1 (.reg regRsC), .shl regTmp1 shift,
            .add regCPtr (.reg regTmp1)]) state = some next ∧
      Moved state (scaled (state.gpr regRsC) (2 ^ shift)) next := by
  split_ifs with narrow
  · refine ⟨_, rfl, ?_, ?_, rfl, rfl, rfl⟩
    · simp [scaled, BitVec.mul_comm]
    · intro register other _
      simp [Function.update_of_ne other]
  · refine ⟨_, rfl, ?_, ?_, rfl, rfl, rfl⟩
    · simp [Operand.value, shiftLeft_eq]
    · intro register other scratch
      simp [Function.update_of_ne other, Function.update_of_ne scratch]

/-- `moveCPtr` adds its count of strides. -/
theorem moveCPtrFrom_runs (fuel : Nat) :
    ∀ left shift (state : State), left < 2 ^ fuel →
      ∃ next, execAll semantics (moveCPtrFrom fuel left shift) state =
          some next ∧
        Moved state (scaled (state.gpr regRsC) (left * 2 ^ shift)) next := by
  induction fuel with
  | zero =>
      intro left shift state below
      have none : left = 0 := by omega
      refine ⟨state, rfl, ?_, fun _ _ _ => rfl, rfl, rfl, rfl⟩
      simp [none]
  | succ fuel ih =>
      intro left shift state below
      unfold moveCPtrFrom
      by_cases none : left = 0
      · rw [if_pos none]
        refine ⟨state, rfl, ?_, fun _ _ _ => rfl, rfl, rfl, rfl⟩
        simp [none]
      · rw [if_neg none, execAll_append]
        have bit : ∃ next, execAll semantics
            (if left % 2 = 1 then
              if 2 ^ shift ≤ 8 then
                [.lea regCPtr (ptrScaled regCPtr regRsC (2 ^ shift))]
              else
                [.mov regTmp1 (.reg regRsC), .shl regTmp1 shift,
                  .add regCPtr (.reg regTmp1)]
            else []) state = some next ∧
            Moved state
              (scaled (state.gpr regRsC) (left % 2 * 2 ^ shift)) next := by
          by_cases odd : left % 2 = 1
          · rw [if_pos odd, odd, Nat.one_mul]
            exact moveBit_runs state shift
          · have even : left % 2 = 0 := by omega
            rw [if_neg odd, even, Nat.zero_mul]
            refine ⟨state, rfl, ?_, fun _ _ _ => rfl, rfl, rfl, rfl⟩
            simp
        rcases bit with ⟨middle, runs, moved⟩
        have half : left / 2 < 2 ^ fuel := by
          rw [pow_succ] at below
          omega
        rcases ih (left / 2) (shift + 1) middle half with
          ⟨final, rest, more⟩
        have stride : middle.gpr regRsC = state.gpr regRsC :=
          moved.gpr regRsC (by decide) (by decide)
        refine ⟨final, ?_, ?_, ?_, more.opmask.trans moved.opmask,
          more.field.trans moved.field, more.memory.trans moved.memory⟩
        · rw [runs, Option.bind_some]
          exact rest
        · rw [more.cPtr, moved.cPtr, stride, BitVec.add_assoc,
            ← scaled_double]
        · intro register other scratch
          exact (more.gpr register other scratch).trans
            (moved.gpr register other scratch)

/-- `moveCPtr` moves by `MR` rows. -/
theorem moveCPtr_runs (params : GeneratorParams) (state : State) :
    ∃ next, execAll semantics params.moveCPtr state = some next ∧
      Moved state (scaled (state.gpr regRsC) params.MR) next := by
  have below : params.MR < 2 ^ params.MR := Nat.lt_two_pow_self
  have moved := moveCPtrFrom_runs params.MR params.MR 0 state below
  rwa [Nat.pow_zero, Nat.mul_one] at moved

/-! ## Row blocks -/

section Blocks

variable (params : GeneratorParams) (start : State)

/-- The pointer to the rows of A of a row block. -/
def aBlock (block : Nat) : BitVec 64 :=
  start.field .a + scaled (start.field .psA) block

/-- The registers that a row block starts with. -/
def blockGpr (block : Nat) : Reg64 → BitVec 64 := fun register =>
  if register = regRsA then start.field .rsA
  else if register = regCsA then start.field .csA
  else if register = regRsB then start.field .rsB
  else if register = regRsC then start.field .rsC * 4
  else if register = regCPtr then
    start.field .c + scaled (start.field .rsC * 4) (params.MR * block)
  else if register = regTmp2 then
    start.field .postOpCI + scaled (BitVec.ofNat 64 params.MR) block
  else if params.mLoop ∧ register = regAPtr then aBlock start block
  else if params.mLoop ∧ register = regMiter then
    counter (start.field .mIter) block
  else start.gpr register

/-- The opmask of a 16-bit field. -/
def maskOf (value : BitVec 64) : BitVec 64 :=
  (value.setWidth 16).setWidth 64

/-- The opmasks of a kernel. -/
def blockOpmask : Nat → BitVec 64 :=
  let first := Function.update start.opmask kLeftMaskReg
    (maskOf (start.field .kLeftmask))
  if params.useMask then
    Function.update first maskS32Reg (maskOf (start.field .maskS32))
  else first

/-- The fields of a row block: only the row of the post-ops moves. -/
def blockField (block : Nat) : GemmParams → BitVec 64 :=
  Function.update start.field .postOpCI
    (start.field .postOpCI + scaled (BitVec.ofNat 64 params.MR) block)

/-- The state that a row block starts with, over a memory. -/
def blockEntry (block : Nat) (memory : Memory) : State where
  gpr := blockGpr params start block
  zmm := start.zmm
  opmask := blockOpmask params start
  flags := start.flags
  field := blockField params start block
  memory := memory

/-- A byte of the tiles of the first `count` row blocks. -/
def InTiles (count : Nat) (place : BitVec 64) : Prop :=
  ∃ block < count,
    InTile params (blockEntry params start block start.memory) params.cReg
      place

open Classical in
/-- The memory that the first `count` row blocks do not write. -/
noncomputable def unwritten (count : Nat) : Memory := fun place =>
  if InTiles params start count place then none else start.memory place

/-- The values that a row block stores. -/
def blockAcc (contents : Nat → Contents) (block : Nat) : Nat → Zmm :=
  tileAcc params (blockEntry params start block start.memory)
    (contents block)

/-- Memory behind the first `count` row blocks. -/
structure BlocksDone (contents : Nat → Contents) (count : Nat)
    (memory : Memory) : Prop where
  written : ∀ block < count, ∀ t < params.cReg,
    Holds memory
      (cellAddress params (blockEntry params start block start.memory) t)
      (cellBytes params (blockEntry params start block start.memory) t)
      (blockAcc params start contents block t)
  kept : ∀ place, ¬ InTiles params start count place →
    memory place = start.memory place

end Blocks

/-! ## More memory -/

section Extension

variable {params : GeneratorParams} {start : State} {block : Nat}
variable {memory larger : Memory}

theorem Supplied.extend {isVNNIrem : Bool} {a b : BitVec 64}
    {quad : Nat → BitVec 32} {row : Nat → Zmm}
    (grows : Extends memory larger)
    (supplied : Supplied params (blockEntry params start block memory)
      isVNNIrem a b quad row) :
    Supplied params (blockEntry params start block larger) isVNNIrem a b quad
      row where
  narrow := supplied.narrow
  quads i inRow := by
    have quad := supplied.quads i inRow
    cases isVNNIrem with
    | false => exact DwordAt.extend grows quad
    | true =>
        intro place
        have byte := quad place
        change if (blockOpmask params start kLeftMaskReg).getLsbD place then
          _ else _ at byte
        change if (blockOpmask params start kLeftMaskReg).getLsbD place then
          _ else _
        split_ifs at byte ⊢ with kept
        · exact grows _ _ byte
        · exact byte
  rows j inColumn := (supplied.rows j inColumn).extend grows

/-- A row block that finds its operands finds them in a larger memory. -/
theorem Found.extend {contents : Contents} {a : BitVec 64}
    (grows : Extends memory larger)
    (found : Found params (blockEntry params start block memory) contents
      a) :
    Found params (blockEntry params start block larger) contents a where
  supplies some := ⟨fun round before =>
      Supplied.extend grows ((found.supplies some).full round before),
    fun tail => Supplied.extend grows ((found.supplies some).tail tail)⟩
  sums some last j inColumn :=
    (found.sums some last j inColumn).extend grows
  alpha generic := DwordAt.extend grows (found.alpha generic)
  beta some := DwordAt.extend grows (found.beta some)
  old i inRow j inColumn := (found.old i inRow j inColumn).extend grows
  apart := found.apart

end Extension

/-! ## Runs -/

section Runs

variable (params : GeneratorParams) (start : State)
variable (contents : Nat → Contents)

/-- The registers of a row block, with `count` tiles stored. -/
structure BlockAt (block count : Nat) (state : State) : Prop where
  registers : Fixed (blockEntry params start block state.memory) state
  done : BlocksDone params start contents count state.memory

/-- A row block finds its operands in what the blocks before it leave. -/
def BlockFound (block : Nat) : Prop :=
  Found params (blockEntry params start block (unwritten params start block))
    (contents block) (aBlock start block)

variable {params start contents}

theorem BlocksDone.extends {count : Nat} {memory : Memory}
    (done : BlocksDone params start contents count memory) :
    Extends (unwritten params start count) memory := by
  intro place byte here
  unfold unwritten at here
  split_ifs at here with inside
  rw [done.kept place inside]
  exact here

/-- The tile of a row block has no byte of the tiles before it. -/
theorem BlockFound.apart {block : Nat}
    (found : BlockFound params start contents block) {place : BitVec 64}
    (inTile : InTile params
      (blockEntry params start block start.memory) params.cReg place) :
    ¬ InTiles params start block place := by
  rcases inTile with ⟨t, below, index, kept, rfl⟩
  intro earlier
  have column : t % params.bReg < params.bReg :=
    Nat.mod_lt _ (bReg_pos_of_lt below)
  have old : unwritten params start block
      (offset (cellAddress params
        (blockEntry params start block start.memory) t) index) = some _ :=
    found.old _ (accumulator_row below) _ column index kept
  unfold unwritten at old
  rw [if_pos earlier] at old
  cases old

/-- The tiles behind one more row block. -/
theorem BlocksDone.succ {block : Nat} {before after : Memory}
    (found : BlockFound params start contents block)
    (done : BlocksDone params start contents block before)
    (patched : Patched params (blockEntry params start block before)
      (blockAcc params start contents block) params.cReg after) :
    BlocksDone params start contents (block + 1) after where
  written other below t inRange := by
    by_cases last : other = block
    · rw [last]
      exact patched.written t inRange
    · intro index kept
      have earlier : InTiles params start block
          (offset (cellAddress params
            (blockEntry params start other start.memory) t) index) :=
        ⟨other, by omega, t, inRange, index, kept, rfl⟩
      have outside := fun inTile => found.apart inTile earlier
      exact (patched.kept _ outside).trans
        (done.written other (by omega) t inRange index kept)
  kept place outside := by
    have unchanged : after place = before place :=
      patched.kept place fun inTile =>
        outside ⟨block, Nat.lt_succ_self block, inTile⟩
    rw [unchanged]
    refine done.kept place fun earlier => outside ?_
    rcases earlier with ⟨other, below, inTile⟩
    exact ⟨other, by omega, inTile⟩

/-- One row block. -/
theorem block_triple (fits : Fits params) {block : Nat}
    (found : BlockFound params start contents block) :
    Triple semantics
      (fun state => BlockAt params start contents block block state ∧
        state.gpr regTmpAptr = aBlock start block)
      params.rowBlock
      (BlockAt params start contents block (block + 1)) := by
  rintro state ⟨⟨registers, done⟩, aPtr⟩
  have here : Found params (blockEntry params start block state.memory)
      (contents block) (aBlock start block) :=
    Found.extend done.extends found
  rcases rowBlock_triple fits here state ⟨registers, aPtr⟩ with
    ⟨final, runs, stored⟩
  exact ⟨final, runs, ⟨stored.gpr, stored.opmask, stored.field, rfl⟩,
    done.succ found stored.patched⟩

/-- From one row block to the next. -/
theorem nextRowBlock_triple (loops : params.mLoop = true) {block : Nat}
    (below : block < (start.field .mIter).toNat) :
    Triple semantics (BlockAt params start contents block (block + 1))
      (emit params.nextRowBlock)
      (fun state =>
        BlockAt params start contents (block + 1) (block + 1) state ∧
          holds .ne state =
            decide (block + 1 < (start.field .mIter).toNat)) := by
  refine Triple.all fun state ends => ?_
  rcases moveCPtr_runs params state with ⟨middle, runs, moved⟩
  have gpr (register : Reg64) (member : register ∈ fixedRegs) :
      state.gpr register = blockGpr params start block register :=
    ends.registers.gpr register member
  have field : middle.field = blockField params start block :=
    moved.field.trans ends.registers.field
  have memory : middle.memory = state.memory := moved.memory
  have kept (register : Reg64) (member : register ∈ fixedRegs)
      (other : register ≠ regCPtr) :
      middle.gpr register = blockGpr params start block register := by
    refine (moved.gpr register other ?_).trans (gpr register member)
    rintro rfl
    exact absurd member (by decide)
  have psA : middle.field .psA = start.field .psA := by
    rw [field, blockField, Function.update_of_ne (by decide)]
  have miter : middle.gpr regMiter =
      counter (start.field .mIter) block := by
    rw [kept regMiter (by decide) (by decide)]
    simp [blockGpr, loops]
  have tmp2 : middle.gpr regTmp2 = start.field .postOpCI +
      scaled (BitVec.ofNat 64 params.MR) block := by
    rw [kept regTmp2 (by decide) (by decide)]
    simp [blockGpr]
  unfold nextRowBlock
  rw [execAll_append, runs, Option.bind_some]
  refine ⟨_, rfl, ⟨⟨?_, ?_, ?_, rfl⟩, ?_⟩, ?_⟩
  · intro register member
    have old (other : register ≠ regCPtr) := kept register member other
    simp only [fixedRegs, List.mem_cons, List.not_mem_nil, or_false]
      at member
    rcases member with rfl | rfl | rfl | rfl | rfl | rfl | rfl | rfl
    · simpa [blockEntry, blockGpr] using old (by decide)
    · simpa [blockEntry, blockGpr] using old (by decide)
    · simpa [blockEntry, blockGpr] using old (by decide)
    · simpa [blockEntry, blockGpr] using old (by decide)
    · have cPtr := moved.cPtr
      rw [gpr regCPtr (by decide), gpr regRsC (by decide)] at cPtr
      simpa [blockEntry, blockGpr, Nat.mul_succ, scaled_add,
        BitVec.add_assoc] using cPtr
    · have aPtr := old (by decide)
      simp [blockGpr, loops] at aPtr
      simp [blockEntry, blockGpr, loops, aPtr, aBlock, psA, Operand.value,
        scaled_succ, BitVec.add_assoc]
    · simp [blockEntry, blockGpr, tmp2, offset, scaled_succ,
        BitVec.add_assoc]
    · simp [blockEntry, blockGpr, loops, miter, Operand.value,
        ← counter_succ]
  · exact moved.opmask.trans ends.registers.opmask
  · simp [blockEntry, field, blockField, tmp2, offset, scaled_succ,
      BitVec.add_assoc]
  · exact memory ▸ ends.done
  · rw [← counter_last below]
    simp [holds, Flags.ofSub, Operand.value, miter, bne]

/-- The load of the parameters. -/
theorem initializeParameters_triple :
    Triple semantics (fun state => state = start)
      (emit params.initializeParameters)
      (fun state => BlockAt params start contents 0 0 state ∧
        (params.mLoop = false →
          state.gpr regTmpAptr = aBlock start 0)) := by
  have nothing : BlocksDone params start contents 0 start.memory :=
    ⟨fun _ none => absurd none (Nat.not_lt_zero _), fun _ _ => rfl⟩
  refine Triple.all fun state same => ?_
  subst same
  unfold initializeParameters
  cases loops : params.mLoop <;> cases fringe : params.useMask <;>
    refine ⟨_, rfl, ⟨⟨?_, ?_, ?_, rfl⟩, nothing⟩, ?_⟩
  all_goals first
    | (intro register member
       simp only [fixedRegs, List.mem_cons, List.not_mem_nil, or_false]
         at member
       rcases member with rfl | rfl | rfl | rfl | rfl | rfl | rfl | rfl <;>
         simp [blockEntry, blockGpr, loops, Operand.value, aBlock,
           Address.at, counter_zero])
    | (simp [blockEntry, blockOpmask, blockField, maskOf, fringe,
        Operand.value, aBlock])

end Runs

/-! ## Labels -/

@[simp]
theorem labels_emit (code : List Code) : labels (emit code) = [] :=
  labels_instrs code

/-- The labels of a generated kernel are distinct. -/
theorem labels_generated (params : GeneratorParams) :
    (labels (emit params.initializeParameters ++
      params.generateIrLoop)).Nodup := by
  by_cases loops : params.mLoop = true <;>
    by_cases single : params.kUnroll = 1 <;>
    by_cases alpha : params.alphaScalingType = .zero <;>
    by_cases beta : params.betaScalingType = .zero <;>
    simp [generateIrLoop, rowBlock, accumulate, accumulateTail,
      conversionCompensation, labels, loops, single, alpha, beta]

/-! ## The kernel -/

section Kernel

variable {params : GeneratorParams} {start : State}
variable {contents : Nat → Contents}

/-- The row blocks of a call. -/
def blocks (params : GeneratorParams) (start : State) : Nat :=
  if params.mLoop then (start.field .mIter).toNat else 1

/-- The row block whose registers are left behind. -/
def lastBlock (params : GeneratorParams) (start : State) : Nat :=
  if params.mLoop then (start.field .mIter).toNat else 0

/-- The row blocks one after the other. -/
theorem rowBlocks_triple (fits : Fits params)
    (some : 0 < blocks params start)
    (found : ∀ block < blocks params start,
      BlockFound params start contents block) :
    Triple semantics
      (fun state => BlockAt params start contents 0 0 state ∧
        (params.mLoop = false → state.gpr regTmpAptr = aBlock start 0))
      (if params.mLoop then
        .label .bloop6x64I ::
          ((emit [.mov regTmpAptr (.reg regAPtr)] ++ params.rowBlock ++
            emit params.nextRowBlock) ++
            [.jcc .ne .bloop6x64I])
      else params.rowBlock)
      (BlockAt params start contents (lastBlock params start)
        (blocks params start)) := by
  cases loops : params.mLoop with
  | false =>
      have single : blocks params start = 1 := by simp [blocks, loops]
      have last : lastBlock params start = 0 := by simp [lastBlock, loops]
      rw [if_neg Bool.false_ne_true, single, last]
      rw [single] at found
      exact (block_triple fits (found 0 Nat.one_pos)).weaken
        (fun state begun => ⟨begun.1, begun.2 rfl⟩) fun state ends => ends
  | true =>
      have count : blocks params start = (start.field .mIter).toNat := by
        simp [blocks, loops]
      have last : lastBlock params start = (start.field .mIter).toNat := by
        simp [lastBlock, loops]
      rw [count] at some found
      rw [if_pos rfl, count, last]
      refine (Triple.loop
        (fun block => BlockAt params start contents block block) some
        ?_).weaken (fun state begun => begun.1) fun state ends => ends
      intro block below
      have pointer : Triple semantics
          (BlockAt params start contents block block)
          (emit [.mov regTmpAptr (.reg regAPtr)] : Emitted)
          (fun state => BlockAt params start contents block block state ∧
            state.gpr regTmpAptr = aBlock start block) := by
        refine Triple.all fun state here => ⟨_, rfl,
          ⟨here.registers.setGpr (by decide) _, here.done⟩, ?_⟩
        have aPtr := here.registers.gpr regAPtr (by decide)
        simpa [blockEntry, blockGpr, loops, Operand.value] using aPtr
      exact (pointer.seq (block_triple fits (found block below))).seq
        (nextRowBlock_triple loops below)

/--
A generated kernel runs to its end without a fault.  Then every tile holds its
products, nothing outside the tiles has changed, and of the parameters only
the row of the post-ops has moved.
-/
theorem generateKernel_runs (fits : Fits params)
    (some : 0 < blocks params start)
    (found : ∀ block < blocks params start,
      BlockFound params start contents block)
    {code : Emitted} (generated : params.generateKernel = .some code) :
    ∃ final, Runs semantics code start final ∧
      BlocksDone params start contents (blocks params start) final.memory ∧
      final.field = blockField params start (lastBlock params start) := by
  have leave : Triple semantics
      (BlockAt params start contents (lastBlock params start)
        (blocks params start))
      (emit [.vzeroupper] : Emitted)
      (fun state =>
        BlocksDone params start contents (blocks params start)
          state.memory ∧
        state.field = blockField params start (lastBlock params start)) :=
    Triple.all fun state ends =>
      ⟨_, rfl, ends.done, ends.registers.field⟩
  have body := Triple.seq (rowBlocks_triple fits some found) leave
  have whole := Triple.seq initializeParameters_triple body
  unfold generateKernel at generated
  split_ifs at generated
  cases generated
  rcases whole start rfl with ⟨final, runs, done⟩
  exact ⟨final, runs.runs (labels_generated params), done⟩

end Kernel

end AoclDlp.Jit.S8Kernel
