import AoclDlp.Foundations.Regions
import AoclDlp.Jit.PackBGenerator
import AoclDlp.Jit.S8Step

/-!
# One quad of rows

`interleaveKQuad` loads four rows of a panel, adds them to the column sums,
and stores one doubleword per column with a byte of each row.  The unpacks and
permutes are followed on origins: both the 16-column and the 64-column code
move byte `i` of column `j` to byte `4 * j + i`.
-/

namespace AoclDlp.Jit.PackBQuad

open AoclDlp.Foundations.Assembly
open AoclDlp.Foundations.Avx512
open AoclDlp.Foundations.Lanes
open AoclDlp.Foundations.Regions
open AoclDlp.Foundations.Shuffles
open AoclDlp.Jit.PackBGenerator
open AoclDlp.Jit.PackBGenerator.PackBGeneratorParams
open AoclDlp.Jit.S8Generator (Reg64 ptr regBytes)

/-- The state of the generated code. -/
abbrev State := Machine Reg64 PackBParams

/-! ## Interleaving -/

/-- The interleave of 16 columns. -/
theorem unpack16_origin :
    ∀ index : Fin 64, Shuffle.run unpack16 Shuffle.origins xmmB index =
      .byte (xmmA + index.val % 4) (Fin.ofNat 64 (index.val / 4)) := by
  decide +kernel

/-- The registers that `interleaveKQuad64` stores. -/
def stored64 : Fin 4 → Nat :=
  ![zmmS0, zmmA64, zmmS1, zmmB64]

/-- The interleave of 64 columns. -/
theorem unpack64_origin :
    ∀ (block : Fin 4) (index : Fin 64),
      Shuffle.run unpack64 Shuffle.origins (stored64 block) index =
        .byte (zmmA64 + index.val % 4)
          (Fin.ofNat 64 (16 * block.val + index.val / 4)) := by
  decide +kernel

/-- A row of a quad in a register, from block `bj` on. -/
def rowZmm (width : Width) (rows : Nat → Nat → BitVec 8) (i bj : Nat) : Zmm :=
  width.clip fun index => rows i (blockN * bj + index)

/-- The packed bytes of a quad. -/
def quadImage (rows : Nat → Nat → BitVec 8) (index : Nat) : BitVec 8 :=
  rows (index % 4) (index / 4)

theorem rowZmm_apply {width : Width} {index : Fin 64}
    (inside : index.val < width.bytes) (rows : Nat → Nat → BitVec 8)
    (i bj : Nat) :
    rowZmm width rows i bj index = rows i (blockN * bj + index) :=
  if_pos (decide_eq_true inside)

/-- The stored register of the 16-column code. -/
theorem interleaved16 {file : File (BitVec 8)}
    {rows : Nat → Nat → BitVec 8} {bj : Nat}
    (loaded : ∀ i < 4, file (xmmA + i) = rowZmm .xmm rows i bj)
    (index : Fin 64) :
    Shuffle.run unpack16 file xmmB index =
      quadImage rows (bj * regBytes + index) := by
  have quotient : (bj * regBytes + index) / 4 =
      blockN * bj + index / 4 := by
    unfold regBytes blockN
    omega
  have remainder : (bj * regBytes + index) % 4 = index % 4 := by
    unfold regBytes
    omega
  have column : (Fin.ofNat 64 (index.val / 4)).val = index / 4 :=
    Nat.mod_eq_of_lt (by omega)
  rw [Shuffle.run_eq_read, unpack16_origin]
  change file (xmmA + index.val % 4) _ = _
  rw [loaded _ (Nat.mod_lt _ (by decide)), rowZmm_apply, column, quadImage,
    quotient, remainder]
  rw [column]
  exact Nat.div_lt_of_lt_mul index.isLt

/-- The stored registers of the 64-column code. -/
theorem interleaved64 {file : File (BitVec 8)}
    {rows : Nat → Nat → BitVec 8} {bj : Nat}
    (loaded : ∀ i < 4, file (zmmA64 + i) = rowZmm .zmm rows i bj)
    (block : Fin 4) (index : Fin 64) :
    Shuffle.run unpack64 file (stored64 block) index =
      quadImage rows ((bj + block) * regBytes + index) := by
  have quotient : ((bj + block) * regBytes + index) / 4 =
      blockN * bj + (16 * block + index / 4) := by
    unfold regBytes blockN
    omega
  have remainder : ((bj + block) * regBytes + index) % 4 = index % 4 := by
    unfold regBytes
    omega
  have column : (Fin.ofNat 64 (16 * block.val + index.val / 4)).val =
      16 * block + index / 4 := Nat.mod_eq_of_lt (by omega)
  rw [Shuffle.run_eq_read, unpack64_origin]
  change file (zmmA64 + index.val % 4) _ = _
  rw [loaded _ (Nat.mod_lt _ (by decide)), rowZmm_apply (Fin.isLt _), column,
    quadImage, quotient, remainder]

/-! ## The state inside a quad -/

/-- Selectors in a register. -/
theorem selectorOf_selectorZmm (selector : Fin 8 → Fin 16) :
    selectorOf (selectorZmm selector) = selector := by
  funext quad
  have first : 8 * quad.val % 8 = 0 := Nat.mul_mod_right 8 quad.val
  have place : 8 * quad.val / 8 = quad.val :=
    Nat.mul_div_cancel_left _ (by decide)
  unfold selectorOf selectorZmm
  have below := (selector quad).isLt
  simp only [first, place, if_true, Fin.eta]
  refine Fin.ext ?_
  simp only [Fin.ofNat, BitVec.toNat_ofNat]
  omega

/-- The constants of the code. -/
structure Constants (params : PackBGeneratorParams) (state : State) :
    Prop where
  zero : state.zmm xmmZero = fun _ => 0
  selectors : params.useZmm64 = true →
    state.zmm zmmSel1 = selectorZmm selector1 ∧
    state.zmm zmmSel11 = selectorZmm selector11 ∧
    state.zmm zmmSel2 = selectorZmm selector2 ∧
    state.zmm zmmSel21 = selectorZmm selector21

/-- The registers of the constants. -/
def constantRegs : List Nat :=
  [xmmZero, zmmSel1, zmmSel11, zmmSel2, zmmSel21]

theorem Constants.setZmm {params : PackBGeneratorParams} {state : State}
    (constants : Constants params state) {register : Nat}
    (apart : register ∉ constantRegs) (value : Zmm) :
    Constants params (state.setZmm register value) := by
  have others : ∀ other ∈ constantRegs,
      (state.setZmm register value).zmm other = state.zmm other := by
    intro other member
    have different : other ≠ register := fun same => apart (same ▸ member)
    rw [Machine.setZmm_zmm, Function.update_of_ne different]
  refine ⟨(others xmmZero (by decide)).trans constants.zero, fun wide => ?_⟩
  rcases constants.selectors wide with ⟨one, two, three, four⟩
  exact ⟨(others zmmSel1 (by decide)).trans one,
    (others zmmSel11 (by decide)).trans two,
    (others zmmSel2 (by decide)).trans three,
    (others zmmSel21 (by decide)).trans four⟩

/-- A column-sum accumulator to which rows have been added. -/
def addRows (rows : Nat → Nat → BitVec 8) (block count : Nat) (acc : Zmm) :
    Zmm :=
  ofDwords fun lane =>
    dword acc lane +
      ((List.range count).map fun i =>
        (rows i (blockN * block + lane)).signExtend 32).sum

theorem addRows_zero (rows : Nat → Nat → BitVec 8) (block : Nat)
    (acc : Zmm) : addRows rows block 0 acc = acc := by
  refine ext_dword fun lane => ?_
  simp [addRows]

theorem addRows_succ (rows : Nat → Nat → BitVec 8) (block count : Nat)
    (acc : Zmm) :
    addRows rows block (count + 1) acc =
      zipDwords (· + ·) (addRows rows block count acc)
        (ofDwords fun lane =>
          (rows count (blockN * block + lane)).signExtend 32) := by
  refine ext_dword fun lane => ?_
  simp only [addRows, dword_ofDwords, dword_zipDwords, List.range_succ,
    List.map_append, List.sum_append, List.map_cons, List.map_nil,
    List.sum_cons, List.sum_nil, add_zero, BitVec.add_assoc]

/-- A row of zeros adds nothing. -/
theorem addRows_blank {rows : Nat → Nat → BitVec 8} {count : Nat}
    (blank : ∀ j, rows count j = 0) (block : Nat) (acc : Zmm) :
    addRows rows block (count + 1) acc = addRows rows block count acc := by
  rw [addRows_succ]
  refine ext_dword fun lane => ?_
  rw [dword_zipDwords, dword_ofDwords, blank]
  exact BitVec.add_zero _

/-- Inside a quad: what stays, and the accumulators. -/
structure InQuad (params : PackBGeneratorParams) (entry : State)
    (rows : Nat → Nat → BitVec 8) (acc : Nat → Zmm) (counts : Nat → Nat)
    (memory : Memory) (state : State) : Prop where
  gpr : state.gpr = entry.gpr
  opmask : state.opmask = entry.opmask
  field : state.field = entry.field
  memory : state.memory = memory
  constants : Constants params state
  acc : params.accColSum = true → ∀ t < params.numBlocks,
    state.zmm (zmmAcc0 + t) = addRows rows t (counts t) (acc t)

/-- The registers of the accumulators. -/
def IsAcc (params : PackBGeneratorParams) (register : Nat) : Prop :=
  params.accColSum = true ∧
    ∃ t < params.numBlocks, register = zmmAcc0 + t

section Quad

variable {params : PackBGeneratorParams} {entry state : State}
variable {rows : Nat → Nat → BitVec 8} {acc : Nat → Zmm}
variable {counts : Nat → Nat} {memory : Memory}

/-- A register that is neither a constant nor an accumulator. -/
theorem InQuad.setZmm
    (inside : InQuad params entry rows acc counts memory state)
    {register : Nat} (constant : register ∉ constantRegs)
    (free : ¬ IsAcc params register) (value : Zmm) :
    InQuad params entry rows acc counts memory
      (state.setZmm register value) where
  gpr := inside.gpr
  opmask := inside.opmask
  field := inside.field
  memory := inside.memory
  constants := inside.constants.setZmm constant value
  acc sums t below := by
    have apart : zmmAcc0 + t ≠ register :=
      fun same => free ⟨sums, t, below, same.symm⟩
    rw [Machine.setZmm_zmm, Function.update_of_ne apart]
    exact inside.acc sums t below

/-- What `allocateReg` checks. -/
theorem accepted_iff :
    params.accepted = true ↔
      0 < params.NR ∧ (params.accColSum = true → params.NR ≤ 128) ∧
        params.NR % 16 = 0 ∧ (params.useMask = true → params.NR = 16) := by
  unfold accepted
  cases params.accColSum <;> cases params.useMask <;>
    simp only [Bool.false_and, Bool.true_and, Bool.not_false, Bool.and_true,
      Bool.and_eq_true, Bool.not_eq_true', decide_eq_true_eq,
      decide_eq_false_iff_not, reduceCtorEq, eq_self, false_implies,
      true_implies, true_and, and_true] <;>
    simp only [zmmSel1, zmmAcc0, blockN] <;>
    omega

/-- Accumulators of accepted parameters end before the selectors. -/
theorem acc_bounds (legal : params.accepted = true)
    (sums : params.accColSum = true) : params.numBlocks ≤ 8 := by
  have bound := (accepted_iff.mp legal).2.1 sums
  unfold numBlocks blockN
  omega

theorem not_isAcc_of_lt {register : Nat} (below : register < zmmAcc0) :
    ¬ IsAcc params register := by
  rintro ⟨_, t, _, rfl⟩
  omega

theorem not_isAcc_of_le (legal : params.accepted = true)
    {register : Nat} (above : zmmSel1 ≤ register) :
    ¬ IsAcc params register := by
  rintro ⟨sums, t, below, rfl⟩
  have bound := acc_bounds legal sums
  unfold zmmSel1 zmmAcc0 at above
  omega

/-- One row is added to one accumulator. -/
theorem InQuad.addRow
    (inside : InQuad params entry rows acc counts memory state)
    {t : Nat} (below : t < 8) {value : Zmm}
    (added : value = addRows rows t (counts t + 1) (acc t)) :
    InQuad params entry rows acc (Function.update counts t (counts t + 1))
      memory (state.setZmm (zmmAcc0 + t) value) where
  gpr := inside.gpr
  opmask := inside.opmask
  field := inside.field
  memory := inside.memory
  constants := by
    refine inside.constants.setZmm ?_ value
    simp only [constantRegs, xmmZero, zmmSel1, zmmSel11, zmmSel2, zmmSel21,
      zmmAcc0, List.mem_cons, List.not_mem_nil, or_false, not_or]
    omega
  acc sums other inRange := by
    rw [Machine.setZmm_zmm]
    by_cases same : other = t
    · rw [same, Function.update_self, Function.update_self, added]
    · have apart : zmmAcc0 + other ≠ zmmAcc0 + t := fun equal =>
        same (Nat.add_left_cancel equal)
      rw [Function.update_of_ne apart, Function.update_of_ne same]
      exact inside.acc sums other inRange

/-! ## Loads -/

/-- The byte address of a column of row `i` of the quad. -/
def quadAt (entry : State) (ldb i j : Nat) : BitVec 64 :=
  offset (entry.gpr regSrcRow) (i * ldb + j)

/-- What a quad reads: `nLiveRows` rows of `live` columns. -/
structure QuadRows (params : PackBGeneratorParams) (entry : State)
    (ldb nLiveRows live : Nat) (rows : Nat → Nat → BitVec 8) : Prop where
  stride : entry.gpr regLdbBytes = BitVec.ofNat 64 ldb
  stride3 : entry.gpr regSrc = BitVec.ofNat 64 (3 * ldb)
  depth : 0 < nLiveRows
  width : if params.useMask then
      live ≤ blockN ∧ ∀ index < blockN,
        (entry.opmask maskLt16).getLsbD index = decide (index < live)
    else params.NR ≤ live
  stored : ∀ i < nLiveRows, ∀ j < live,
    entry.memory (quadAt entry ldb i j) = some (rows i j) ∧
      Outside (entry.gpr regDstRow) (params.NR * kFactor)
        (quadAt entry ldb i j)
  blank : ∀ i < 4, ∀ j, nLiveRows ≤ i ∨ live ≤ j → rows i j = 0

variable {ldb nLiveRows live bj : Nat}

/-- The address of a row of the quad. -/
theorem rowAddress_at
    (quad : QuadRows params entry ldb nLiveRows live rows)
    (gpr : state.gpr = entry.gpr) {i : Nat} (row : i < 4) (j : Nat) :
    (rowAddress i j).at state = quadAt entry ldb i j := by
  have cases : i = 0 ∨ i = 1 ∨ i = 2 ∨ i = 3 := by omega
  rcases cases with rfl | rfl | rfl | rfl
  · simp [rowAddress, Address.at, quadAt, offset, gpr, BitVec.ofInt_natCast]
  · simp [rowAddress, Address.at, quadAt, offset, gpr, BitVec.ofInt_natCast,
      quad.stride, BitVec.ofNat_add, BitVec.add_assoc]
  · simp [rowAddress, Address.at, quadAt, offset, gpr, BitVec.ofInt_natCast,
      quad.stride, BitVec.ofNat_add, BitVec.ofNat_mul, BitVec.add_assoc,
      BitVec.mul_comm]
  · simp [rowAddress, Address.at, quadAt, offset, gpr, BitVec.ofInt_natCast,
      quad.stride3, BitVec.ofNat_add, BitVec.add_assoc]

/-- Memory behind the first blocks of the quad. -/
def quadMemory (entry : State) (rows : Nat → Nat → BitVec 8) (done : Nat) :
    Memory :=
  overlay (region (entry.gpr regDstRow) (upTo (regBytes * done))
    (quadImage rows)) entry.memory

/-- A load of a row of the quad. -/
theorem load_live (quad : QuadRows params entry ldb nLiveRows live rows)
    {done : Nat} (fits : done ≤ params.numBlocks)
    (inside : InQuad params entry rows acc counts
      (quadMemory entry rows done) state)
    {bits dst i bj : Nat} {width : Width} {mask : Option Nat}
    (row : i < 4) (reads : i < nLiveRows)
    (within : ∀ index, state.selected bits width mask index = true →
      index.val < width.bytes ∧ blockN * bj + index < live)
    (beyond : ∀ index : Fin 64, index.val < width.bytes →
      state.selected bits width mask index = false →
        live ≤ blockN * bj + index) :
    exec (.vmovdqu bits width dst mask (rowAddress i (bj * blockN))) state =
      some (state.setZmm dst (rowZmm width rows i bj)) := by
  have area : regBytes * done ≤ params.NR * kFactor := by
    have whole := Nat.div_mul_le_self params.NR 16
    unfold numBlocks blockN at fits
    unfold regBytes kFactor
    omega
  have holds : Holds state.memory ((rowAddress i (bj * blockN)).at state)
      (state.selected bits width mask)
      fun index => rows i (blockN * bj + index) := by
    intro index selected
    have column := (within index selected).2
    have byte := quad.stored i reads _ column
    rw [rowAddress_at quad inside.gpr row, inside.memory]
    have place : offset (quadAt entry ldb i (bj * blockN)) index =
        quadAt entry ldb i (blockN * bj + index) := by
      rw [quadAt, offset_offset, quadAt, Nat.mul_comm bj, Nat.add_assoc]
    rw [place, quadMemory,
      overlay_miss (region_outside (byte.2.mono area))]
    exact byte.1
  have masked : keepBytes (state.selected bits width mask)
      (fun index => rows i (blockN * bj + index)) =
        rowZmm width rows i bj := by
    funext index
    simp only [keepBytes, rowZmm, Width.clip, decide_eq_true_eq]
    rcases Bool.eq_false_or_eq_true
      (state.selected bits width mask index) with selected | dropped
    · rw [if_pos selected, if_pos (within index selected).1]
    · rw [if_neg (dropped ▸ Bool.false_ne_true)]
      split_ifs with below
      · exact (quad.blank i row _
          (.inr (beyond index below dropped))).symm
      · rfl
  rw [exec, readBytes_of_holds holds, masked, Option.map_some]

/-- A row behind K. -/
theorem load_blank (quad : QuadRows params entry ldb nLiveRows live rows)
    (inside : InQuad params entry rows acc counts memory state)
    {dst i bj : Nat} {width : Width} (row : i < 4)
    (behind : nLiveRows ≤ i) :
    exec (.vmovdqa width dst xmmZero) state =
      some (state.setZmm dst (rowZmm width rows i bj)) := by
  have same : width.clip (state.zmm xmmZero) = rowZmm width rows i bj := by
    rw [inside.constants.zero]
    unfold rowZmm
    congr 1
    funext index
    exact (quad.blank i row _ (.inl behind)).symm
  rw [exec, same]

/-- `loadRow16`. -/
theorem loadRow16_exec
    (quad : QuadRows params entry ldb nLiveRows live rows)
    (legal : params.accepted = true) {done : Nat}
    (fits : done ≤ params.numBlocks)
    (inside : InQuad params entry rows acc counts
      (quadMemory entry rows done) state)
    {i bj : Nat} (row : i < 4) (block : bj < params.numBlocks) :
    exec (params.loadRow16 (xmmA + i) (rowAddress i (bj * blockN))
        (decide (i < nLiveRows))) state =
      some (state.setZmm (xmmA + i) (rowZmm .xmm rows i bj)) := by
  unfold loadRow16
  rcases Nat.lt_or_ge i nLiveRows with reads | behind
  · rw [decide_eq_true reads, if_pos rfl]
    have width := quad.width
    have bounds := accepted_iff.mp legal
    cases masked : params.useMask with
    | true =>
        rw [masked, if_pos rfl] at width
        have first : bj = 0 := by
          have one := bounds.2.2.2 masked
          unfold numBlocks blockN at block
          omega
        have narrow (index : Fin 64) (below : index.val < 16) :
            state.selected 8 .xmm (some maskLt16) index =
              decide (index.val < live) := by
          have bit : index.val / (8 / 8) = index.val := Nat.div_one _
          simp only [Machine.selected, Width.bytes, below, decide_true,
            Bool.true_and, bit, inside.opmask]
          exact width.2 index below
        have low (index : Fin 64)
            (selected : state.selected 8 .xmm (some maskLt16) index = true) :
            index.val < 16 := by
          simp only [Machine.selected, Bool.and_eq_true] at selected
          exact of_decide_eq_true selected.1
        rw [if_pos rfl]
        refine load_live quad fits inside row reads
          (fun index selected => ?_) fun index below dropped => ?_
        · have small := low index selected
          rw [narrow index small] at selected
          rw [first, Nat.mul_zero, Nat.zero_add]
          exact ⟨small, of_decide_eq_true selected⟩
        · rw [narrow index below] at dropped
          rw [first, Nat.mul_zero, Nat.zero_add]
          exact Nat.not_lt.mp (of_decide_eq_false dropped)
    | false =>
        rw [masked, if_neg Bool.false_ne_true] at width
        rw [if_neg Bool.false_ne_true]
        have whole := Nat.div_mul_le_self params.NR 16
        refine load_live quad fits inside row reads
          (fun index selected => ?_) fun index below dropped => ?_
        · have small : index.val < 16 := by
            simp only [Machine.selected, Bool.and_true] at selected
            exact of_decide_eq_true selected
          unfold numBlocks blockN at block
          unfold blockN
          exact ⟨small, by omega⟩
        · simp [Machine.selected, below] at dropped
  · rw [decide_eq_false (Nat.not_lt.mpr behind), if_neg Bool.false_ne_true]
    exact load_blank quad inside row behind

/-- `loadRow64`. -/
theorem loadRow64_exec
    (quad : QuadRows params entry ldb nLiveRows live rows)
    (wide : params.useMask = false) {done : Nat}
    (fits : done ≤ params.numBlocks)
    (inside : InQuad params entry rows acc counts
      (quadMemory entry rows done) state)
    {i bj : Nat} (row : i < 4) (blocks : bj + 4 ≤ params.numBlocks) :
    exec (loadRow64 (zmmA64 + i) (rowAddress i (bj * blockN))
        (decide (i < nLiveRows))) state =
      some (state.setZmm (zmmA64 + i) (rowZmm .zmm rows i bj)) := by
  unfold loadRow64
  rcases Nat.lt_or_ge i nLiveRows with reads | behind
  · rw [decide_eq_true reads, if_pos rfl]
    have width := quad.width
    rw [wide, if_neg Bool.false_ne_true] at width
    have whole := Nat.div_mul_le_self params.NR 16
    refine load_live quad fits inside row reads
      (fun index selected => ?_) fun index below dropped => ?_
    · unfold numBlocks blockN at blocks
      unfold blockN
      exact ⟨index.isLt, by omega⟩
    · simp [Machine.selected, below] at dropped
  · rw [decide_eq_false (Nat.not_lt.mpr behind), if_neg Bool.false_ne_true]
    exact load_blank quad inside row behind

/-! ## Column sums -/

/-- The accumulators only count with column sums. -/
theorem InQuad.without
    (inside : InQuad params entry rows acc counts memory state)
    (none : params.accColSum = false) (other : Nat → Nat) :
    InQuad params entry rows acc other memory state :=
  { inside with
    acc := fun sums => absurd (none.symm.trans sums) Bool.false_ne_true }

/-- The widened bytes of a 128-bit lane of a row. -/
theorem widened_lane {width : Width} {i bj lane : Nat}
    (whole : 16 * (lane + 1) ≤ width.bytes) (index : Fin 16) :
    rowZmm width rows i bj (Fin.ofNat 64 (16 * lane + index.val % 16)) =
      rows i (blockN * (bj + lane) + index) := by
  have small := index.isLt
  have most : width.bytes ≤ 64 := by cases width <;> decide
  have place : (Fin.ofNat 64 (16 * lane + index.val % 16)).val =
      16 * lane + index := by
    rw [Nat.mod_eq_of_lt small]
    exact Nat.mod_eq_of_lt (by omega)
  rw [rowZmm_apply (by omega), place]
  congr 1
  unfold blockN
  omega

/-- A register other than the scratch and an accumulator. -/
def Loaded (width : Width) (first bj count : Nat)
    (rows : Nat → Nat → BitVec 8) (state : State) : Prop :=
  ∀ r < count, state.zmm (first + r) = rowZmm width rows r bj

/-- The widened bytes of a block of a row. -/
def widened (rows : Nat → Nat → BitVec 8) (i block : Nat) : Zmm :=
  ofDwords fun index => (rows i (blockN * block + index)).signExtend 32

/-- A lane of a row is widened into the scratch register. -/
theorem widenLane_exec (state : State) {width : Width} {row i bj lane : Nat}
    (whole : 16 * (lane + 1) ≤ width.bytes)
    (source : state.zmm row = rowZmm width rows i bj) :
    execAll semantics
        (if lane = 0 then [(.vpmovsxbd zmmCvt row : Code)]
        else [.vextracti32x4 zmmCvt row (Fin.ofNat 4 lane),
          .vpmovsxbd zmmCvt zmmCvt]) state =
      some (state.setZmm zmmCvt (widened rows i (bj + lane))) := by
  have most : width.bytes ≤ 64 := by cases width <;> decide
  rcases Nat.eq_zero_or_pos lane with rfl | later
  · have bytes (index : Fin 16) : state.zmm row ⟨index.val, by omega⟩ =
        rows i (blockN * (bj + 0) + index) := by
      have place : (⟨index.val, by omega⟩ : Fin 64) =
          Fin.ofNat 64 (16 * 0 + index.val % 16) := by
        refine Fin.ext ?_
        simp only [Fin.ofNat]
        omega
      rw [source, place, widened_lane whole]
    simp only [if_true, execAll, semantics, exec, Option.bind_some, bytes,
      widened]
  · have bytes (index : Fin 16) :
        Width.xmm.clip (extractLane (Fin.ofNat 4 lane) (state.zmm row))
          ⟨index.val, by omega⟩ = rows i (blockN * (bj + lane) + index) := by
      have number : (Fin.ofNat 4 lane).val = lane :=
        Nat.mod_eq_of_lt (by omega)
      have inside : index.val < Width.xmm.bytes := index.isLt
      rw [Width.clip, keepBytes, if_pos (decide_eq_true inside), extractLane,
        number, source, widened_lane whole]
    rw [if_neg (by omega)]
    simp only [execAll, semantics, exec, Option.bind_some,
      Machine.setZmm_zmm, Function.update_self, Machine.setZmm_setZmm, bytes,
      widened]

/-- One lane of one row is added to its block. -/
theorem accLane_exec
    (inside : InQuad params entry rows acc counts memory state)
    (legal : params.accepted = true) (sums : params.accColSum = true)
    {width : Width} {first bj lane : Nat}
    (whole : 16 * (lane + 1) ≤ width.bytes)
    (block : bj + lane < params.numBlocks) {i count : Nat}
    (row : i < count) (turn : counts (bj + lane) = i)
    (apart : ∀ r < count, first + r < zmmCvt ∨ zmmSel1 ≤ first + r)
    (loaded : Loaded width first bj count rows state) :
    ∃ next, execAll semantics (accLane bj (first + i) lane) state =
        some next ∧
      InQuad params entry rows acc
        (Function.update counts (bj + lane) (i + 1)) memory next ∧
      Loaded width first bj count rows next := by
  have small : bj + lane < 8 := block.trans_le (acc_bounds legal sums)
  have old := inside.acc sums _ block
  rw [turn] at old
  have scratch : InQuad params entry rows acc counts memory
      (state.setZmm zmmCvt (widened rows i (bj + lane))) :=
    inside.setZmm (by decide) (not_isAcc_of_lt (by decide)) _
  have accApart : zmmAcc0 + (bj + lane) ≠ zmmCvt := by
    unfold zmmAcc0 zmmCvt
    omega
  have added := scratch.addRow small (addRows_succ rows (bj + lane) _ _).symm
  rw [turn] at added
  refine ⟨_, ?_, added, ?_⟩
  · rw [accLane, execAll_append, widenLane_exec state whole (loaded i row),
      Option.bind_some]
    simp only [execAll, semantics, exec, Option.bind_some, Machine.zip,
      Machine.setZmm_zmm, Function.update_self, Nat.add_assoc,
      Function.update_of_ne accApart, old, widened]
  · intro r below
    have other := apart r below
    have notAcc : first + r ≠ zmmAcc0 + (bj + lane) := by
      unfold zmmCvt zmmSel1 at other
      unfold zmmAcc0
      omega
    have notScratch : first + r ≠ zmmCvt := by
      unfold zmmSel1 at other
      unfold zmmCvt at other ⊢
      omega
    rw [Machine.setZmm_zmm, Function.update_of_ne notAcc, Machine.setZmm_zmm,
      Function.update_of_ne notScratch]
    exact loaded r below

/-- Counts inside a band of blocks: row `i` has reached `lane` of them. -/
def banded (counts : Nat → Nat) (bj lanes i lane t : Nat) : Nat :=
  if t < bj ∨ bj + lanes ≤ t then counts t
  else if t < bj + lane then i + 1
  else i

theorem banded_start {bj lanes : Nat}
    (fresh : ∀ t, bj ≤ t → t < bj + lanes → counts t = 0) :
    banded counts bj lanes 0 0 = counts := by
  funext t
  unfold banded
  split_ifs with outside past
  · rfl
  · omega
  · exact (fresh t (by omega) (by omega)).symm

theorem banded_step {bj lanes lane : Nat} (inBand : lane < lanes) (i : Nat) :
    Function.update (banded counts bj lanes i lane) (bj + lane) (i + 1) =
      banded counts bj lanes i (lane + 1) := by
  funext t
  rw [Function.update_apply]
  unfold banded
  split_ifs <;> omega

theorem banded_row (counts : Nat → Nat) (bj lanes i : Nat) :
    banded counts bj lanes i lanes = banded counts bj lanes (i + 1) 0 := by
  funext t
  unfold banded
  split_ifs <;> omega

/-- The rows of a band are added to its blocks. -/
theorem adds_triple (quad : QuadRows params entry ldb nLiveRows live rows)
    (legal : params.accepted = true) (width : Width) (first bj lanes : Nat)
    (whole : 16 * lanes ≤ width.bytes)
    (blocks : bj + lanes ≤ params.numBlocks)
    (fresh : ∀ t, bj ≤ t → t < bj + lanes → counts t = 0)
    (apart : ∀ r < 4, first + r < zmmCvt ∨ zmmSel1 ≤ first + r) :
    Triple semantics
      (fun state => InQuad params entry rows acc counts memory state ∧
        Loaded width first bj 4 rows state)
      (emit (if params.accColSum then
        (List.range 4).flatMap fun i =>
          if decide (i < nLiveRows) then
            (List.range lanes).flatMap (accLane bj (first + i))
          else []
      else []))
      (fun state => InQuad params entry rows acc
          (banded counts bj lanes 4 0) memory state ∧
        Loaded width first bj 4 rows state) := by
  let Inv (i lane : Nat) (state : State) : Prop :=
    InQuad params entry rows acc (banded counts bj lanes i lane) memory
      state ∧ Loaded width first bj 4 rows state
  cases sums : params.accColSum with
  | false =>
      exact Triple.nil fun state inside =>
        ⟨inside.1.without sums _, inside.2⟩
  | true =>
      have rowStep : ∀ i < 4, Triple semantics (Inv i 0)
          (emit (if decide (i < nLiveRows) then
            (List.range lanes).flatMap (accLane bj (first + i))
          else [])) (Inv (i + 1) 0) := by
        intro i row
        rcases Nat.lt_or_ge i nLiveRows with reads | behind
        · rw [decide_eq_true reads, if_pos rfl]
          refine (Triple.flatMapRange (Inv i) ?_).weaken
            (fun state inside => inside) ?_
          · intro lane inBand
            refine Triple.all fun state inside => ?_
            have turn : banded counts bj lanes i lane (bj + lane) = i := by
              unfold banded
              split_ifs <;> omega
            have next := accLane_exec inside.1 legal sums
              (show 16 * (lane + 1) ≤ width.bytes by omega)
              (show bj + lane < params.numBlocks by omega) row turn apart
              inside.2
            rwa [banded_step inBand] at next
          · intro state inside
            change InQuad _ _ _ _ (banded counts bj lanes i lanes) _ _ ∧ _
              at inside
            rwa [banded_row] at inside
        · rw [decide_eq_false (Nat.not_lt.mpr behind),
            if_neg Bool.false_ne_true]
          refine Triple.nil fun state inside => ⟨?_, inside.2⟩
          refine { inside.1 with acc := fun _ t inRange => ?_ }
          rw [inside.1.acc sums t inRange]
          by_cases outside : t < bj ∨ bj + lanes ≤ t
          · rw [banded, banded, if_pos outside, if_pos outside]
          · have low : ¬ t < bj + 0 := by omega
            rw [banded, banded, if_neg outside, if_neg outside, if_neg low,
              if_neg low]
            exact (addRows_blank (fun j => quad.blank i row j (.inl behind)) t
              (acc t)).symm
      rw [if_pos rfl]
      refine (Triple.flatMapRange (fun i => Inv i 0) rowStep).weaken ?_
        (fun state inside => inside)
      intro state inside
      change InQuad _ _ _ _ (banded counts bj lanes 0 0) _ _ ∧ _
      rw [banded_start fresh]
      exact inside

/-! ## Stores -/

theorem address_ptr (state : State) (base : Reg64) (disp : Nat) :
    (ptr base disp).at state = offset (state.gpr base) disp := by
  simp [ptr, Address.at, offset, BitVec.ofInt_natCast]

theorem selected_all (state : State) (bits : Nat) :
    state.selected bits .zmm none = fun _ => true := by
  funext index
  exact (Bool.and_true _).trans (decide_eq_true index.isLt)

theorem keptAt_all : keptAt (fun _ => true) = upTo 64 := by
  funext index
  unfold keptAt upTo
  split_ifs with inside
  · exact (decide_eq_true inside).symm
  · exact (decide_eq_false inside).symm

/-- The output of a panel is mapped. -/
def Mapped (memory : Memory) (base : BitVec 64) (count : Nat) : Prop :=
  ∀ index < count, (memory (offset base index)).isSome

/-- The next block of the quad is stored. -/
theorem store_block
    (inside : InQuad params entry rows acc counts
      (quadMemory entry rows bj) state)
    (mapped : Mapped entry.memory (entry.gpr regDstRow)
      (params.NR * kFactor))
    (extent : params.NR * kFactor ≤ 2 ^ 64) (block : bj < params.numBlocks)
    {src : Nat} (value : ∀ index : Fin 64,
      state.zmm src index = quadImage rows (bj * regBytes + index)) :
    ∃ next, exec (.vmovdquStore 64 .zmm (ptr regDstRow (bj * regBytes)) none
        src) state = some next ∧
      InQuad params entry rows acc counts (quadMemory entry rows (bj + 1))
        next ∧ next.zmm = state.zmm := by
  have whole := Nat.div_mul_le_self params.NR 16
  have last : (bj + 1) * 64 ≤ params.NR * kFactor := by
    unfold numBlocks blockN at block
    unfold kFactor
    omega
  have present : ∀ index : Fin 64, (fun _ => true) index = true →
      (state.memory (offset (offset (entry.gpr regDstRow) (bj * regBytes))
        index)).isSome := by
    intro index _
    rw [inside.memory, offset_offset]
    refine overlay_isSome (mapped _ ?_) _
    have small := index.isLt
    unfold regBytes
    omega
  have writes := writeBytes_overlay (state.zmm src) present
  have fits : bj * regBytes + 64 ≤ 2 ^ 64 := by
    unfold regBytes
    omega
  refine ⟨{ state with memory := quadMemory entry rows (bj + 1) }, ?_,
    { inside with
      memory := rfl
      constants := ⟨inside.constants.zero, inside.constants.selectors⟩ },
    rfl⟩
  rw [exec, address_ptr, inside.gpr, selected_all, writes, inside.memory,
    keptAt_all, quadMemory, overlay_overlay, Nat.mul_comm regBytes bj,
    region_append _ fits]
  · rw [Option.map_some, quadMemory, Nat.mul_comm regBytes, Nat.succ_mul]
    rfl
  · intro index below
    rw [byteAt, dif_pos below]
    exact value ⟨index, below⟩

/-! ## Blocks -/

theorem emit_append (first second : List Code) :
    emit (first ++ second) = emit first ++ emit second :=
  List.map_append

/-- Four rows are loaded. -/
theorem loads_triple (width : Width) (first bj : Nat) (load : Nat → Code)
    (constant : ∀ i < 4, first + i ∉ constantRegs)
    (free : ∀ i < 4, ¬ IsAcc params (first + i))
    (each : ∀ i < 4, ∀ state,
      InQuad params entry rows acc counts memory state →
        exec (load i) state =
          some (state.setZmm (first + i) (rowZmm width rows i bj))) :
    Triple semantics (InQuad params entry rows acc counts memory)
      (emit ((List.range 4).map load))
      (fun state => InQuad params entry rows acc counts memory state ∧
        Loaded width first bj 4 rows state) := by
  refine (Triple.mapRange (fun i state =>
      InQuad params entry rows acc counts memory state ∧
        Loaded width first bj i rows state) ?_).weaken
    (fun state inside => ⟨inside, fun r none => absurd none (by omega)⟩)
    (fun state inside => inside)
  rintro i row state ⟨inside, loaded⟩
  refine ⟨_, each i row state inside,
    inside.setZmm (constant i row) (free i row) _, fun r below => ?_⟩
  rw [Machine.setZmm_zmm]
  by_cases same : r = i
  · rw [same, Function.update_self]
  · have apart : first + r ≠ first + i := fun equal =>
      same (Nat.add_left_cancel equal)
    rw [Function.update_of_ne apart]
    exact loaded r (by omega)

/-- Shuffles that leave the constants and the accumulators alone. -/
theorem shuffles_triple (width : Width) (first bj : Nat)
    (program : List Shuffle)
    (ready : ∀ state, Constants params state →
      ∀ shuffle ∈ program, shuffle.Ready state.zmm)
    (spares : ∀ shuffle ∈ program, ∀ other ∈ program,
      shuffle.Spares other.dst)
    (constant : ∀ shuffle ∈ program, shuffle.dst ∉ constantRegs)
    (free : ∀ shuffle ∈ program, ¬ IsAcc params shuffle.dst) :
    Triple semantics
      (fun state => InQuad params entry rows acc counts memory state ∧
        Loaded width first bj 4 rows state)
      (emit (program.map Shuffle.instr))
      (fun state => InQuad params entry rows acc counts memory state ∧
        ∃ file : File (BitVec 8),
          (∀ i < 4, file (first + i) = rowZmm width rows i bj) ∧
            state.zmm = Shuffle.run program file) := by
  refine Triple.all fun state ⟨inside, loaded⟩ => ?_
  have others {register : Nat}
      (spared : ∀ shuffle ∈ program, shuffle.dst ≠ register) :
      Shuffle.run program state.zmm register = state.zmm register :=
    Shuffle.run_of_not_dst spared _
  have kept {register : Nat} (member : register ∈ constantRegs) :
      Shuffle.run program state.zmm register = state.zmm register :=
    others fun shuffle inProgram same =>
      constant shuffle inProgram (same ▸ member)
  refine ⟨_, Shuffle.execAll_instrs program state
    (ready state inside.constants) spares, ?_, state.zmm, loaded, rfl⟩
  refine { inside with constants := ⟨?_, fun wide => ?_⟩, acc := ?_ }
  · exact (kept (by decide)).trans inside.constants.zero
  · rcases inside.constants.selectors wide with ⟨one, two, three, four⟩
    exact ⟨(kept (by decide)).trans one, (kept (by decide)).trans two,
      (kept (by decide)).trans three, (kept (by decide)).trans four⟩
  · intro sums t below
    refine (others fun shuffle inProgram same => ?_).trans
      (inside.acc sums t below)
    exact free shuffle inProgram ⟨sums, t, below, same⟩

/-- Blocks to which all four rows have been added. -/
def doneCounts (done t : Nat) : Nat :=
  if t < done then 4 else 0

theorem banded_done (bj lanes : Nat) :
    banded (doneCounts bj) bj lanes 4 0 = doneCounts (bj + lanes) := by
  funext t
  unfold banded doneCounts
  split_ifs <;> omega

theorem doneCounts_fresh {bj lanes t : Nat} (behind : bj ≤ t)
    (_ : t < bj + lanes) : doneCounts bj t = 0 :=
  if_neg (Nat.not_lt.mpr behind)

/-- Four rows are added to the next blocks. -/
theorem blocks_triple (quad : QuadRows params entry ldb nLiveRows live rows)
    (legal : params.accepted = true) (width : Width) (first bj lanes : Nat)
    (whole : 16 * lanes ≤ width.bytes)
    (blocks : bj + lanes ≤ params.numBlocks)
    (apart : ∀ r < 4, first + r < zmmCvt ∨ zmmSel1 ≤ first + r) :
    Triple semantics
      (fun state => InQuad params entry rows acc (doneCounts bj) memory
          state ∧ Loaded width first bj 4 rows state)
      (emit (if params.accColSum then
        (List.range 4).flatMap fun i =>
          if decide (i < nLiveRows) then
            (List.range lanes).flatMap (accLane bj (first + i))
          else []
      else []))
      (fun state => InQuad params entry rows acc (doneCounts (bj + lanes))
          memory state ∧ Loaded width first bj 4 rows state) := by
  rw [← banded_done]
  exact adds_triple quad legal width first bj lanes whole blocks
    (fun t => doneCounts_fresh) apart

/-- What a quad writes to. -/
structure QuadArea (params : PackBGeneratorParams) (entry : State) :
    Prop where
  mapped : Mapped entry.memory (entry.gpr regDstRow) (params.NR * kFactor)
  extent : params.NR * kFactor ≤ 2 ^ 64

/-- Behind the first blocks of a quad. -/
abbrev AtBlock (params : PackBGeneratorParams) (entry : State)
    (rows : Nat → Nat → BitVec 8) (acc : Nat → Zmm) (done : Nat) :
    State → Prop :=
  InQuad params entry rows acc (doneCounts done)
    (quadMemory entry rows done)

/-- The body of the 16-column loop. -/
theorem interleave16_triple
    (quad : QuadRows params entry ldb nLiveRows live rows)
    (legal : params.accepted = true) (area : QuadArea params entry)
    (block : bj < params.numBlocks) :
    Triple semantics (AtBlock params entry rows acc bj)
      (emit (params.interleave16 nLiveRows bj))
      (AtBlock params entry rows acc (bj + 1)) := by
  have sums : (fun i => accXmm16 bj (xmmA + i) (decide (i < nLiveRows))) =
      fun i => if decide (i < nLiveRows) then
        (List.range 1).flatMap (accLane bj (xmmA + i)) else [] := by
    funext i
    cases decide (i < nLiveRows) <;> rfl
  have low : ∀ i < 4, xmmA + i < zmmAcc0 := by
    intro i row
    unfold xmmA zmmAcc0
    omega
  have loads := loads_triple .xmm xmmA bj
    (fun i => params.loadRow16 (xmmA + i) (rowAddress i (bj * blockN))
      (decide (i < nLiveRows)))
    (by decide) (fun i row => not_isAcc_of_lt (low i row))
    fun i row state (inside : AtBlock params entry rows acc bj state) =>
      loadRow16_exec quad legal block.le inside row block
  have dsts : ∀ shuffle ∈ unpack16, shuffle.dst < zmmAcc0 := by decide
  unfold interleave16
  rw [emit_append, emit_append, emit_append, sums]
  refine ((loads.seq (blocks_triple quad legal .xmm xmmA bj 1 (by decide)
    block (by decide))).seq (shuffles_triple .xmm xmmA bj unpack16
      (fun state _ => by simp [unpack16, Shuffle.Ready]) (by decide)
      (by decide) fun shuffle member =>
        not_isAcc_of_lt (dsts shuffle member))).seq ?_
  rintro state ⟨inside, file, loaded, moved⟩
  rcases store_block inside area.mapped area.extent block
    (fun index => (congrFun (congrFun moved xmmB) index).trans
      (interleaved16 loaded index)) with ⟨next, executes, reached, _⟩
  exact ⟨next, Exec.instr executes, reached⟩

/-- One of the four stores of the 64-column code. -/
theorem store64_triple {counts : Nat → Nat} {file : File (BitVec 8)}
    (loaded : ∀ i < 4, file (zmmA64 + i) = rowZmm .zmm rows i bj)
    (area : QuadArea params entry) (blocks : bj + 4 ≤ params.numBlocks)
    (block : Fin 4) :
    Triple semantics
      (fun state => InQuad params entry rows acc counts
        (quadMemory entry rows (bj + block)) state ∧
          state.zmm = Shuffle.run unpack64 file)
      (emit [.vmovdquStore 64 .zmm
        (ptr regDstRow ((bj + block.val) * regBytes)) none (stored64 block)])
      (fun state => InQuad params entry rows acc counts
        (quadMemory entry rows (bj + (block + 1))) state ∧
          state.zmm = Shuffle.run unpack64 file) := by
  rintro state ⟨inside, moved⟩
  rcases store_block inside area.mapped area.extent
    (show bj + block.val < params.numBlocks by omega)
    (fun index => (congrFun (congrFun moved (stored64 block)) index).trans
      (interleaved64 loaded block index)) with ⟨next, executes, reached, same⟩
  exact ⟨next, Exec.instr executes, reached, same.trans moved⟩

/-- The body of the 64-column loop. -/
theorem interleave64_triple
    (quad : QuadRows params entry ldb nLiveRows live rows)
    (legal : params.accepted = true) (wide : params.useZmm64 = true)
    (area : QuadArea params entry) (blocks : bj + 4 ≤ params.numBlocks) :
    Triple semantics (AtBlock params entry rows acc bj)
      (emit (params.interleaveKQuad64 nLiveRows bj))
      (AtBlock params entry rows acc (bj + 4)) := by
  have unmasked : params.useMask = false := by
    simp only [useZmm64, Bool.and_eq_true, Bool.not_eq_true'] at wide
    exact wide.1
  have high : ∀ i, zmmSel1 ≤ zmmA64 + i := by
    intro i
    unfold zmmSel1 zmmA64
    omega
  have loads := loads_triple .zmm zmmA64 bj
    (fun i => loadRow64 (zmmA64 + i) (rowAddress i (bj * blockN))
      (decide (i < nLiveRows)))
    (by decide) (fun i _ => not_isAcc_of_le legal (high i))
    fun i row state (inside : AtBlock params entry rows acc bj state) =>
      loadRow64_exec quad unmasked (by omega) inside row blocks
  have dsts : ∀ shuffle ∈ unpack64, zmmSel1 ≤ shuffle.dst := by decide
  have ready : ∀ state, Constants params state →
      ∀ shuffle ∈ unpack64, shuffle.Ready state.zmm := by
    intro state constants
    rcases constants.selectors wide with ⟨one, two, three, four⟩
    simp [unpack64, Shuffle.Ready, one, two, three, four,
      selectorOf_selectorZmm]
  have stores : ∀ file : File (BitVec 8),
      (∀ i < 4, file (zmmA64 + i) = rowZmm .zmm rows i bj) →
        Triple semantics
          (fun state => InQuad params entry rows acc (doneCounts (bj + 4))
            (quadMemory entry rows (bj + 0)) state ∧
              state.zmm = Shuffle.run unpack64 file)
          (emit [.vmovdquStore 64 .zmm (ptr regDstRow ((bj + 0) * regBytes))
              none zmmS0,
            .vmovdquStore 64 .zmm (ptr regDstRow ((bj + 1) * regBytes)) none
              zmmA64,
            .vmovdquStore 64 .zmm (ptr regDstRow ((bj + 2) * regBytes)) none
              zmmS1,
            .vmovdquStore 64 .zmm (ptr regDstRow ((bj + 3) * regBytes)) none
              zmmB64])
          (fun state => InQuad params entry rows acc (doneCounts (bj + 4))
            (quadMemory entry rows (bj + 4)) state ∧
              state.zmm = Shuffle.run unpack64 file) :=
    fun file loaded =>
      (store64_triple loaded area blocks 0).seq
        ((store64_triple loaded area blocks 1).seq
          ((store64_triple loaded area blocks 2).seq
            (store64_triple loaded area blocks 3)))
  unfold interleaveKQuad64
  rw [emit_append, emit_append, emit_append]
  refine ((loads.seq (blocks_triple quad legal .zmm zmmA64 bj 4 (by decide)
    blocks (by decide))).seq (shuffles_triple .zmm zmmA64 bj unpack64 ready
      (by decide) (by decide) fun shuffle member =>
        not_isAcc_of_le legal (dsts shuffle member))).seq ?_
  rintro state ⟨inside, file, loaded, moved⟩
  rcases stores file loaded state ⟨inside, moved⟩ with
    ⟨final, runs, reached, _⟩
  refine ⟨final, ?_, reached⟩
  simpa only [Nat.add_mul, Nat.zero_mul, Nat.add_zero, Nat.one_mul] using
    runs

/-- Every block of a quad. -/
theorem interleaveKQuad_triple
    (quad : QuadRows params entry ldb nLiveRows live rows)
    (legal : params.accepted = true) (area : QuadArea params entry) :
    Triple semantics (AtBlock params entry rows acc 0)
      (emit (params.interleaveKQuad nLiveRows))
      (AtBlock params entry rows acc params.numBlocks) := by
  have quarter : 4 * (params.wideBlocks / 4) = params.wideBlocks := by
    unfold wideBlocks
    split_ifs <;> omega
  have bound : params.wideBlocks ≤ params.numBlocks := by
    unfold wideBlocks
    split_ifs <;> omega
  have wide : Triple semantics (AtBlock params entry rows acc 0)
      (emit ((List.range (params.wideBlocks / 4)).flatMap fun chunk =>
        params.interleaveKQuad64 nLiveRows (4 * chunk)))
      (AtBlock params entry rows acc params.wideBlocks) := by
    have whole := Triple.flatMapRange
      (fun chunk => AtBlock params entry rows acc (4 * chunk))
      fun chunk (below : chunk < params.wideBlocks / 4) =>
        interleave64_triple quad legal
          (by
            by_contra narrow
            simp [wideBlocks, narrow] at below) area (by omega)
    rwa [quarter] at whole
  have rest := Triple.flatMapRange
    (fun block => AtBlock params entry rows acc (params.wideBlocks + block))
    fun block (below : block < params.numBlocks - params.wideBlocks) =>
      interleave16_triple quad legal area (by omega)
  unfold interleaveKQuad
  rw [emit_append]
  rw [Nat.add_sub_of_le bound] at rest
  exact wide.seq rest

end Quad

end AoclDlp.Jit.PackBQuad
