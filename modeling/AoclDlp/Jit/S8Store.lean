import AoclDlp.Jit.S8Scale

/-!
# A row block

A row block starts from cleared accumulators, accumulates over K unless alpha
is zero, scales, and stores the accumulators to the rows of C.  It changes the
cells of its tile and nothing else in memory.
-/

namespace AoclDlp.Jit.S8Store

open AoclDlp.DecisionEngine.Scaling
open AoclDlp.Foundations.Assembly
open AoclDlp.Foundations.Avx512
open AoclDlp.Foundations.Lanes
open AoclDlp.Jit.S8Accumulate
open AoclDlp.Jit.S8Allocation
open AoclDlp.Jit.S8Generator
open AoclDlp.Jit.S8Generator.GeneratorParams
open AoclDlp.Jit.S8Scale
open AoclDlp.Jit.S8Step

variable {params : GeneratorParams} {entry : State} {acc old : Nat → Zmm}

/-! ## Clearing -/

theorem clip_zmm (value : Zmm) : Width.zmm.clip value = value := by
  funext index
  exact if_pos (decide_eq_true index.isLt)

/-- A register that is cleared by itself. -/
theorem clear_zmm (value : Zmm) :
    (Width.zmm.clip fun index => value index ^^^ value index) = splat 0 := by
  rw [clip_zmm]
  funext index
  rw [BitVec.xor_self]
  simp [splat, ofDwords, byteOf]

/-- A row block has the pointer of its rows of A. -/
structure Begun (entry : State) (a : BitVec 64) (state : State) : Prop where
  fixed : Fixed entry state
  aPtr : state.gpr regTmpAptr = a

/-- The start of a row block. -/
theorem clear_triple (fits : Fits params) {a : BitVec 64} :
    Triple semantics (Begun entry a)
      (emit (.mov regBptr (.field .b) :: params.initializeRegisters))
      (Entered params entry a (entry.field .b) fun _ => splat 0) := by
  have shape : emit (.mov regBptr (.field .b) :: params.initializeRegisters) =
      emit [.mov regBptr (.field .b),
        .vpxor .zmm (params.zmmC 0) (params.zmmC 0) (params.zmmC 0)] ++
      ((List.range (params.cReg - 1)).map fun i =>
        .vmovdqa .zmm (params.zmmC (i + 1)) (params.zmmC 0)).map .instr := by
    simp [initializeRegisters, emit]
  let Inv (done : Nat) (state : State) : Prop :=
    Begun entry a state ∧ state.gpr regBptr = entry.field .b ∧
      ∀ t ≤ done, state.zmm (params.zmmC t) = splat 0
  have first : Triple semantics (Begun entry a)
      (emit [.mov regBptr (.field .b),
        .vpxor .zmm (params.zmmC 0) (params.zmmC 0) (params.zmmC 0)])
      (Inv 0) := by
    refine Triple.all fun state begun => ⟨_, rfl,
      ⟨(begun.fixed.setGpr (by decide) _).setZmm _ _, ?_⟩, ?_, ?_⟩
    · simpa [Machine.zip] using begun.aPtr
    · simp [Machine.zip, Operand.value, begun.fixed.field]
    · intro t least
      have same : t = 0 := by omega
      rw [same, Machine.zip, Machine.setZmm_zmm, Function.update_self]
      exact clear_zmm _
  rw [shape]
  refine first.seq ((Triple.mapRange Inv ?_).weaken
    (fun state inside => inside) ?_)
  · rintro i below state ⟨begun, bPtr, cleared⟩
    refine ⟨_, rfl, ⟨begun.fixed.setZmm _ _, begun.aPtr⟩, bPtr, ?_⟩
    intro t least
    rw [Machine.setZmm_zmm]
    by_cases same : t = i + 1
    · rw [same, Function.update_self, clip_zmm]
      exact cleared 0 (Nat.zero_le i)
    · have apart : params.zmmC t ≠ params.zmmC (i + 1) := fun equal =>
        same ((zmmC_inj fits).mp equal)
      rw [Function.update_of_ne apart]
      exact cleared t (by omega)
  · rintro state ⟨begun, bPtr, cleared⟩
    exact ⟨⟨begun.fixed, fun t below => cleared t (by omega)⟩, begun.aPtr,
      bPtr⟩

/-! ## Storing -/

/-- The address of the cells of an accumulator. -/
def cellAddress (params : GeneratorParams) (entry : State) (t : Nat) :
    BitVec 64 :=
  cAddress entry (t / params.bReg) (t % params.bReg)

/-- The bytes of an accumulator that are stored. -/
def cellBytes (params : GeneratorParams) (entry : State) (t : Nat) :
    Fin 64 → Bool :=
  cells params entry (t % params.bReg)

/-- A byte of the tile. -/
def InTile (params : GeneratorParams) (entry : State) (done : Nat)
    (place : BitVec 64) : Prop :=
  ∃ t < done, ∃ index, cellBytes params entry t index = true ∧
    place = offset (cellAddress params entry t) index

/-- No two bytes of the tile share an address. -/
def Apart (params : GeneratorParams) (entry : State) : Prop :=
  ∀ t < params.cReg, ∀ other < params.cReg, t ≠ other →
    ∀ index place, cellBytes params entry t index = true →
      cellBytes params entry other place = true →
        offset (cellAddress params entry t) index ≠
          offset (cellAddress params entry other) place

/-- Memory in which the first `done` accumulators are stored. -/
structure Patched (params : GeneratorParams) (entry : State)
    (acc : Nat → Zmm) (done : Nat) (memory : Memory) : Prop where
  written : ∀ t < done, Holds memory (cellAddress params entry t)
    (cellBytes params entry t) (acc t)
  kept : ∀ place, ¬ InTile params entry done place →
    memory place = entry.memory place

/-- While the accumulators are stored. -/
structure Storing (params : GeneratorParams) (entry : State)
    (acc : Nat → Zmm) (i done : Nat) (state : State) : Prop where
  gpr : ∀ register ∈ fixedRegs, state.gpr register = entry.gpr register
  opmask : state.opmask = entry.opmask
  field : state.field = entry.field
  values : ∀ t < params.cReg, state.zmm (params.zmmC t) = acc t
  cPtr : state.gpr regTmpCptr =
    entry.gpr regCPtr + scaled (entry.gpr regRsC) i
  patched : Patched params entry acc done state.memory

/-- The cells of C are mapped. -/
def Mapped (params : GeneratorParams) (entry : State) : Prop :=
  ∀ t < params.cReg, ∀ index, cellBytes params entry t index = true →
    (entry.memory (offset (cellAddress params entry t) index)).isSome

/-- The store of one accumulator. -/
theorem store_step (apart : Apart params entry)
    (mapped : Mapped params entry) {i j : Nat} (inRow : i < params.MR)
    (inColumn : j < params.bReg) {state : State}
    (inside : Storing params entry acc i (i * params.bReg + j) state) :
    ∃ next, exec (.vmovdquStore 32 .zmm (ptr regTmpCptr (j * regBytes))
        (params.finalMask j) (params.zmmC (i * params.bReg + j))) state =
          some next ∧
      Storing params entry acc i (i * params.bReg + (j + 1)) next := by
  have inRange := accumulator_lt inRow inColumn
  have quotient := accumulator_div i inColumn
  have remainder := accumulator_mod i inColumn
  have address : offset (state.gpr regTmpCptr) (j * regBytes) =
      cellAddress params entry (i * params.bReg + j) := by
    rw [cellAddress, quotient, remainder, cAddress, inside.cPtr]
  have bytes : state.selected 32 .zmm (params.finalMask j) =
      cellBytes params entry (i * params.bReg + j) := by
    rw [cellBytes, remainder]
    unfold cells Machine.selected
    rw [inside.opmask]
  have present : ∀ index,
      cellBytes params entry (i * params.bReg + j) index = true →
        (state.memory (offset (cellAddress params entry
          (i * params.bReg + j)) index)).isSome := by
    intro index stored
    by_cases earlier : InTile params entry (i * params.bReg + j)
        (offset (cellAddress params entry (i * params.bReg + j)) index)
    · rcases earlier with ⟨t, before, place, kept, same⟩
      rw [same, inside.patched.written t before place kept]
      rfl
    · rw [inside.patched.kept _ earlier]
      exact mapped _ inRange index stored
  rcases writeBytes_of_mapped (acc (i * params.bReg + j)) present with
    ⟨memory, writes, holds, rest⟩
  refine ⟨{ state with memory := memory }, ?_, inside.gpr, inside.opmask,
    inside.field, inside.values, inside.cPtr, ?_, ?_⟩
  · have value := inside.values _ inRange
    simp [exec, address, bytes, value, writes]
  · intro t before
    by_cases same : t = i * params.bReg + j
    · rw [same]
      exact holds
    · intro index stored
      have elsewhere := rest _ fun place kept =>
        apart t (by omega) _ inRange same index place stored kept
      exact elsewhere.trans
        (inside.patched.written t (by omega) index stored)
  · intro place outside
    have elsewhere := rest place fun index stored same =>
      outside ⟨i * params.bReg + j, by omega, index, stored, same⟩
    refine elsewhere.trans (inside.patched.kept place fun earlier =>
      outside ?_)
    rcases earlier with ⟨t, before, inTile⟩
    exact ⟨t, by omega, inTile⟩

/-- What a row block leaves behind. -/
structure Stored (params : GeneratorParams) (entry : State)
    (acc : Nat → Zmm) (state : State) : Prop where
  gpr : ∀ register ∈ fixedRegs, state.gpr register = entry.gpr register
  opmask : state.opmask = entry.opmask
  field : state.field = entry.field
  patched : Patched params entry acc params.cReg state.memory

/-- `storeResult`. -/
theorem storeResult_triple (apart : Apart params entry)
    (mapped : Mapped params entry) :
    Triple semantics (Settled params entry acc) (emit params.storeResult)
      (Stored params entry acc) := by
  have start : Triple semantics (Settled params entry acc)
      (emit [.mov regTmpCptr (.reg regCPtr)])
      (Storing params entry acc 0 (0 * params.bReg)) := by
    refine Triple.all fun state settled => ⟨_, rfl,
      (settled.fixed.setGpr (by decide) _).gpr, settled.fixed.opmask,
      settled.fixed.field, settled.acc, ?_, ?_, ?_⟩
    · simpa [Operand.value] using settled.fixed.gpr regCPtr (by decide)
    · intro t none
      exact absurd none (by omega)
    · intro place _
      exact congrFun settled.fixed.memory place
  have shape : emit params.storeResult =
      emit [.mov regTmpCptr (.reg regCPtr)] ++
        emit ((List.range params.MR).flatMap params.storeRow) := by
    simp [storeResult, emit]
  rw [shape]
  refine start.seq ((Triple.flatMapRange
    (fun i => Storing params entry acc i (i * params.bReg)) ?_).weaken
      (fun state inside => inside) fun state inside =>
        ⟨inside.gpr, inside.opmask, inside.field, inside.patched⟩)
  intro i inRow
  have row : Triple semantics
      (Storing params entry acc i (i * params.bReg + 0))
      (emit ((List.range params.bReg).map fun column =>
        .vmovdquStore 32 .zmm (ptr regTmpCptr (column * regBytes))
          (params.finalMask column)
          (params.zmmC (i * params.bReg + column))))
      (Storing params entry acc i (i * params.bReg + params.bReg)) :=
    Triple.mapRange
      (fun j => Storing params entry acc i (i * params.bReg + j))
      fun j inColumn state inside =>
        store_step apart mapped inRow inColumn inside
  rw [storeRow, List.map_append, Nat.succ_mul]
  refine row.seq (Triple.all fun state inside => ⟨_, rfl, ?_, inside.opmask,
    inside.field, inside.values, ?_, inside.patched⟩)
  · intro register member
    have other : register ≠ regTmpCptr := by
      rintro rfl
      exact absurd member (by decide)
    rw [Machine.setResult_gpr, Function.update_of_ne other]
    exact inside.gpr register member
  · have rsC := inside.gpr regRsC (by decide)
    simp [Operand.value, inside.cPtr, rsC, scaled_succ,
      BitVec.add_assoc]

/-! ## The whole row block -/

/-- What a row block finds in memory. -/
structure Contents where
  ops : Operands
  sums : Nat → Zmm
  alpha : BitVec 32
  beta : BitVec 32
  old : Nat → Zmm

section Block

variable (params) (entry) (contents : Contents)

/-- The scaled products of a row block. -/
def alphaAcc (t : Nat) : Zmm :=
  let value := compensated params entry contents.sums
    (accAfter params contents.ops (rounds params entry)) t
  match params.alphaScalingType with
  | .zero => splat 0
  | .one => value
  | .generic => zipDwords (· * ·) value (splat contents.alpha)

/-- What a row block stores. -/
def tileAcc (t : Nat) : Zmm :=
  if params.betaScalingType = .zero then alphaAcc params entry contents t
  else addOld params entry contents.beta contents.old t
    (alphaAcc params entry contents t)

/-- A row block finds its operands, and its tile does not overlap itself. -/
structure Found (a : BitVec 64) : Prop where
  supplies : params.alphaScalingType ≠ .zero →
    Supplies params contents.ops entry a (entry.field .b)
  sums : params.alphaScalingType ≠ .zero → entry.field .isLastK ≠ 0 →
    SumsAt params entry contents.sums
  alpha : params.alphaScalingType = .generic →
    DwordAt entry.memory (entry.field .alpha) contents.alpha
  beta : params.betaScalingType ≠ .zero →
    DwordAt entry.memory (entry.field .beta) contents.beta
  old : OldAt params entry contents.old
  apart : Apart params entry

end Block

variable {contents : Contents} {a : BitVec 64}

theorem Found.mapped (found : Found params entry contents a) :
    Mapped params entry := by
  intro t below index kept
  have column : t % params.bReg < params.bReg :=
    Nat.mod_lt _ (bReg_pos_of_lt below)
  rw [cellAddress, found.old _ (accumulator_row below) _ column index kept]
  rfl

/-- The accumulation of a row block, unless alpha is zero. -/
theorem product_triple (fits : Fits params)
    (found : Found params entry contents a) :
    Triple semantics
      (Entered params entry a (entry.field .b) fun _ => splat 0)
      (if params.alphaScalingType = .zero then []
      else
        params.accumulate ++ params.accumulateTail ++
          params.conversionCompensation ++ [.label .scaling] ++
          emit (if params.alphaScalingType = .one then []
            else params.scaleAlpha))
      (Settled params entry (alphaAcc params entry contents)) := by
  by_cases zero : params.alphaScalingType = .zero
  · rw [if_pos zero]
    refine Triple.nil fun state entered => entered.toSettled.congr
      fun t _ => ?_
    rw [alphaAcc, zero]
  · rw [if_neg zero]
    have supplies := found.supplies zero
    have accumulated := Triple.seq (accumulate_triple fits supplies)
      (accumulateTail_triple fits supplies)
    have corrected := Triple.seq accumulated
      (conversionCompensation_triple fits (found.sums zero))
    have labelled := Triple.seq corrected
      (Triple.label Label.scaling fun state settled => settled)
    refine labelled.seq ?_
    cases scaling : params.alphaScalingType with
    | zero => exact absurd scaling zero
    | one =>
        rw [if_pos rfl]
        refine Triple.nil fun state settled => settled.congr fun t _ => ?_
        rw [alphaAcc, scaling]
    | generic =>
        rw [if_neg (by decide)]
        refine (scaleAlpha_triple fits (found.alpha scaling)).weaken
          (fun state settled => settled) fun state settled =>
            settled.congr fun t _ => ?_
        rw [alphaAcc, scaling]

/-- The old contents of C, unless beta is zero. -/
theorem beta_triple (fits : Fits params)
    (found : Found params entry contents a) :
    Triple semantics (Settled params entry (alphaAcc params entry contents))
      (if params.betaScalingType = .zero then []
      else emit params.scaleBeta ++ [.label .betaopEnd])
      (Settled params entry (tileAcc params entry contents)) := by
  by_cases zero : params.betaScalingType = .zero
  · rw [if_pos zero]
    refine Triple.nil fun state settled => settled.congr fun t _ => ?_
    rw [tileAcc, if_pos zero]
  · rw [if_neg zero]
    refine (scaleBeta_triple fits (found.beta zero) found.old).seq
      (Triple.label Label.betaopEnd fun state settled =>
        Settled.congr settled fun t _ => ?_)
    rw [tileAcc, if_neg zero]

/-- A row block changes its tile and nothing else. -/
theorem rowBlock_triple (fits : Fits params)
    (found : Found params entry contents a) :
    Triple semantics (Begun entry a) params.rowBlock
      (Stored params entry (tileAcc params entry contents)) := by
  have tested : Triple semantics
      (Settled params entry (tileAcc params entry contents))
      (emit [.mov regTmp1 (.field .isLastK), .test regTmp1 regTmp1])
      (Settled params entry (tileAcc params entry contents)) :=
    Triple.all fun state settled =>
      ⟨_, rfl, (settled.setGpr (by decide) _).setFlags _⟩
  have skipped : Triple semantics
      (Settled params entry (tileAcc params entry contents))
      (.jcc .e Label.storec :: ([] ++ [.label Label.storec]))
      (Settled params entry (tileAcc params entry contents)) :=
    Triple.skip (fun state settled _ => settled)
      (Triple.nil fun state inside => inside.1)
  have ends : Triple semantics
      (Stored params entry (tileAcc params entry contents))
      [.label Label.storeopEnd, .label Label.postStorec]
      (Stored params entry (tileAcc params entry contents)) :=
    (Triple.label Label.storeopEnd fun state stored => stored).seq
      (Triple.label Label.postStorec fun state stored => stored)
  unfold rowBlock
  exact ((((((clear_triple fits).seq (product_triple fits found)).seq
    (beta_triple fits found)).seq tested).seq skipped).seq
      (storeResult_triple found.apart found.mapped)).seq ends

end AoclDlp.Jit.S8Store
