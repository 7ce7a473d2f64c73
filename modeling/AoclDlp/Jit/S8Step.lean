import AoclDlp.Jit.S8Allocation
import Mathlib.Tactic.Ring

/-!
# One round of the K loop

A round of `kLoop` broadcasts four elements of each row of A, offsets them to
unsigned bytes, and adds their dot product with four rows of B to every
accumulator.  The registers of the code are followed instruction by
instruction; the invariant inside a round counts the accumulators that the
round has updated.
-/

namespace AoclDlp.Jit.S8Step

open AoclDlp.Foundations.Assembly
open AoclDlp.Foundations.Avx512
open AoclDlp.Foundations.Lanes
open AoclDlp.Jit.S8Allocation
open AoclDlp.Jit.S8Generator
open AoclDlp.Jit.S8Generator.GeneratorParams

/-- The state of the generated code. -/
abbrev State := Machine Reg64 GemmParams

/-! ## Addresses and loads -/

@[simp]
theorem ptr_at (state : State) (base : Reg64) (disp : Nat) :
    (ptr base disp).at state = offset (state.gpr base) disp := by
  simp [ptr, Address.at, offset, BitVec.ofInt_natCast]

@[simp]
theorem ptrScaled_at (state : State) (base index : Reg64) (scale : Nat) :
    (ptrScaled base index scale).at state =
      state.gpr base + state.gpr index * BitVec.ofNat 64 scale := by
  simp [ptrScaled, Address.at]

/-- A whole register is selected without a mask. -/
@[simp]
theorem selected_zmm (state : State) (bits : Nat) :
    state.selected bits .zmm none = fun _ => true := by
  funext index
  simp [Machine.selected, Width.bytes]

/-- The address of an item behind `count` strides. -/
def scaled (stride : BitVec 64) (count : Nat) : BitVec 64 :=
  BitVec.ofNat 64 count * stride

@[simp]
theorem scaled_zero (stride : BitVec 64) : scaled stride 0 = 0 := by
  simp [scaled]

theorem scaled_add (stride : BitVec 64) (first second : Nat) :
    scaled stride (first + second) =
      scaled stride first + scaled stride second := by
  unfold scaled
  rw [BitVec.ofNat_add]
  ring

theorem scaled_succ (stride : BitVec 64) (count : Nat) :
    scaled stride (count + 1) = scaled stride count + stride := by
  rw [scaled_add]
  simp [scaled]

/-- The lowest doubleword of a register with some bytes of a splat. -/
theorem dword_keepBytes_splat {keep : Fin 64 → Bool} {word : BitVec 32}
    (dropped : ∀ place : Fin 4, keep (bytePlace 0 place) = false →
      byteOf word place = 0) :
    dword (keepBytes keep (splat word)) 0 = word := by
  conv_rhs => rw [← ofBytes_byteOf word]
  unfold dword
  congr 1
  funext place
  unfold keepBytes
  rw [splat_bytePlace]
  cases kept : keep (bytePlace 0 place) with
  | true => rfl
  | false => exact (dropped place kept).symm

/-- A doubleword in memory is read as one. -/
theorem readBytes_dword {memory : Memory} {address : BitVec 64}
    {word : BitVec 32} (stored : DwordAt memory address word) :
    ∃ value, readBytes memory address keepDword = some value ∧
      dword value 0 = word := by
  have holds : Holds memory address keepDword (splat word) := by
    intro index kept
    have below : index.val < 4 := of_decide_eq_true kept
    rw [splat_low word below]
    exact stored ⟨index, below⟩
  refine ⟨_, readBytes_of_holds holds, dword_keepBytes_splat ?_⟩
  intro place dropped
  simp [keepDword, bytePlace] at dropped

/-- The bytes of a quad of A that the mask selects are in memory, the others
are zero. -/
def MaskedQuadAt (state : State) (address : BitVec 64) (quad : BitVec 32) :
    Prop :=
  ∀ place : Fin 4,
    if (state.opmask kLeftMaskReg).getLsbD place then
      state.memory (offset address place) = some (byteOf quad place)
    else byteOf quad place = 0

/-- A quad of A, as a round reads it. -/
def QuadAt (state : State) (isVNNIrem : Bool) (address : BitVec 64)
    (quad : BitVec 32) : Prop :=
  if isVNNIrem then MaskedQuadAt state address quad
  else DwordAt state.memory address quad

/-- The mask of the K tail selects bytes of one quad. -/
def NarrowMask (state : State) : Prop :=
  ∀ bit, 4 ≤ bit → (state.opmask kLeftMaskReg).getLsbD bit = false

theorem selected_masked {state : State} (narrow : NarrowMask state)
    (index : Fin 64) :
    state.selected 8 .ymm (some kLeftMaskReg) index =
      (state.opmask kLeftMaskReg).getLsbD index := by
  have same : index.val / (8 / 8) = index.val := Nat.div_one _
  simp only [Machine.selected, same]
  rcases Nat.lt_or_ge index.val Width.ymm.bytes with below | above
  · rw [decide_eq_true below, Bool.true_and]
  · have wide : 4 ≤ index.val := Nat.le_trans (by decide) above
    rw [narrow index wide, Bool.and_false]

/-- The masked load of the K tail. -/
theorem readBytes_masked {state : State} {address : BitVec 64}
    {quad : BitVec 32} (narrow : NarrowMask state)
    (stored : MaskedQuadAt state address quad) :
    ∃ value, readBytes state.memory address
        (state.selected 8 .ymm (some kLeftMaskReg)) = some value ∧
      dword value 0 = quad := by
  have holds : Holds state.memory address
      (state.selected 8 .ymm (some kLeftMaskReg)) (splat quad) := by
    intro index kept
    rw [selected_masked narrow] at kept
    have below : index.val < 4 := by
      by_contra above
      rw [narrow index (by omega)] at kept
      exact Bool.false_ne_true kept
    have bytes := stored ⟨index, below⟩
    rw [if_pos kept] at bytes
    rw [splat_low quad below]
    exact bytes
  refine ⟨_, readBytes_of_holds holds, dword_keepBytes_splat ?_⟩
  intro place dropped
  have index : (bytePlace 0 place).val = place.val := by simp [bytePlace]
  rw [selected_masked narrow, index] at dropped
  have bytes := stored place
  rw [dropped, if_neg Bool.false_ne_true] at bytes
  exact bytes

/-! ## The state inside a round -/

/-- The general registers that a row block changes at its end only. -/
def fixedRegs : List Reg64 :=
  [regRsA, regCsA, regRsB, regRsC, regCPtr, regAPtr, regTmp2, regMiter]

/-- What a row block leaves as it is before its stores. -/
structure Fixed (entry state : State) : Prop where
  gpr : ∀ register ∈ fixedRegs, state.gpr register = entry.gpr register
  opmask : state.opmask = entry.opmask
  field : state.field = entry.field
  memory : state.memory = entry.memory

namespace Fixed

variable {entry state : State}

theorem refl (state : State) : Fixed state state :=
  ⟨fun _ _ => rfl, rfl, rfl, rfl⟩

theorem setGpr (fixed : Fixed entry state) {register : Reg64}
    (fresh : register ∉ fixedRegs) (value : BitVec 64) :
    Fixed entry (state.setGpr register value) where
  gpr other member := by
    have apart : other ≠ register := fun same => fresh (same ▸ member)
    rw [Machine.setGpr_gpr, Function.update_of_ne apart]
    exact fixed.gpr other member
  opmask := fixed.opmask
  field := fixed.field
  memory := fixed.memory

theorem setZmm (fixed : Fixed entry state) (register : Nat) (value : Zmm) :
    Fixed entry (state.setZmm register value) :=
  ⟨fixed.gpr, fixed.opmask, fixed.field, fixed.memory⟩

theorem setFlags (fixed : Fixed entry state) (flags : Flags) :
    Fixed entry { state with flags := flags } :=
  ⟨fixed.gpr, fixed.opmask, fixed.field, fixed.memory⟩

theorem setResult (fixed : Fixed entry state) {register : Reg64}
    (fresh : register ∉ fixedRegs) (value : BitVec 64) (flags : Flags) :
    Fixed entry (state.setResult register value flags) :=
  (fixed.setGpr fresh value).setFlags flags

end Fixed

/-- An unsigned quad: each element is offset by 128. -/
def offsetQuad (quad : BitVec 32) : BitVec 32 :=
  addBytes quad (ofBytes fun _ => 128)

/-- `vpdpbusd` of an offset quad and a register of B. -/
def dotStep (quad : BitVec 32) (row acc : Zmm) : Zmm :=
  ofDwords fun lane =>
    dword acc lane + dotBytes (offsetQuad quad) (dword row lane)

section Rounds

variable (params : GeneratorParams)

/-- The accumulators after a round that has updated the first `done` of
them. -/
def stepAcc (quad : Nat → BitVec 32) (row : Nat → Zmm) (acc : Nat → Zmm)
    (done t : Nat) : Zmm :=
  if t < done then
    dotStep (quad (t / params.bReg)) (row (t % params.bReg)) (acc t)
  else acc t

/-- Between two rounds of the K loop. -/
structure AtStep (entry : State) (a b k : BitVec 64) (acc : Nat → Zmm)
    (state : State) : Prop where
  fixed : Fixed entry state
  aPtr : state.gpr regTmpAptr = a
  bPtr : state.gpr regBptr = b
  kIter : state.gpr regKIter = k
  vec128 : state.zmm params.zmm128 = splatByte 128
  acc : ∀ t < params.cReg, state.zmm (params.zmmC t) = acc t

/-- Inside a round, with the first `loaded` registers of B. -/
structure InStep (entry : State) (a b k tmp : BitVec 64) (loaded : Nat)
    (row : Nat → Zmm) (acc : Nat → Zmm) (state : State) : Prop where
  base : AtStep params entry a b k acc state
  tmp1 : state.gpr regTmp1 = tmp
  rows : ∀ j < loaded, state.zmm (params.zmmB j) = row j

/-- Inside a row, with its broadcast quad. -/
structure InRow (entry : State) (a b k tmp : BitVec 64)
    (quad : BitVec 32) (row : Nat → Zmm) (acc : Nat → Zmm)
    (state : State) : Prop where
  base : InStep params entry a b k tmp params.bReg row acc state
  quad : state.zmm zmmA = splat (offsetQuad quad)

variable {params} {entry : State} {a b k tmp : BitVec 64}
variable {row : Nat → Zmm} {acc : Nat → Zmm}

/-- The load of one register of B. -/
theorem loadB_step (fits : Fits params) {bits j : Nat} {state : State}
    (inside : InStep params entry a b k tmp j row acc state)
    (below : j < params.bReg)
    (stored : Holds entry.memory (offset b (j * regBytes)) (fun _ => true)
      (row j)) :
    ∃ next, exec (.vmovdqu bits .zmm (params.zmmB j) none
        (ptr regBptr (j * regBytes))) state = some next ∧
      InStep params entry a b k tmp (j + 1) row acc next := by
  have read : readBytes state.memory (offset (state.gpr regBptr)
      (j * regBytes)) (fun _ => true) = some (row j) := by
    rw [inside.base.fixed.memory, inside.base.bPtr,
      readBytes_of_holds stored, keepBytes_all]
  refine ⟨state.setZmm (params.zmmB j) (row j), ?_, ?_⟩
  · simp [exec, read]
  · refine ⟨⟨inside.base.fixed.setZmm _ _, inside.base.aPtr,
      inside.base.bPtr, inside.base.kIter, ?_, ?_⟩, inside.tmp1, ?_⟩
    · rw [Machine.setZmm_zmm,
        Function.update_of_ne (zmmB_ne_zmm128 fits j).symm]
      exact inside.base.vec128
    · intro t inRange
      rw [Machine.setZmm_zmm,
        Function.update_of_ne (zmmC_ne_zmmB fits t below)]
      exact inside.base.acc t inRange
    · intro other early
      rw [Machine.setZmm_zmm]
      rcases Nat.lt_or_ge other j with before | last
      · have apart : params.zmmB other ≠ params.zmmB j := fun same =>
          absurd ((zmmB_inj fits).mp same) (by omega)
        rw [Function.update_of_ne apart]
        exact inside.rows other before
      · have same : other = j := by omega
        rw [same, Function.update_self]

/-- `vpdpbusd` into one accumulator. -/
theorem dot_step (fits : Fits params) {quad : Nat → BitVec 32} {i j : Nat}
    {state : State} (inColumn : j < params.bReg)
    (inside : InRow params entry a b k tmp (quad i) row
      (stepAcc params quad row acc (i * params.bReg + j)) state) :
    ∃ next, exec (.vpdpbusd (params.zmmC (i * params.bReg + j)) zmmA
        (params.zmmB j)) state = some next ∧
      InRow params entry a b k tmp (quad i) row
        (stepAcc params quad row acc (i * params.bReg + (j + 1))) next := by
  have quotient := accumulator_div i inColumn
  have remainder := accumulator_mod i inColumn
  refine ⟨_, rfl, ⟨⟨⟨inside.base.base.fixed.setZmm _ _,
    inside.base.base.aPtr, inside.base.base.bPtr, inside.base.base.kIter,
    ?_, ?_⟩, inside.base.tmp1, ?_⟩, ?_⟩⟩
  · rw [Machine.setZmm_zmm,
      Function.update_of_ne (zmmC_ne_zmm128 fits _).symm]
    exact inside.base.base.vec128
  · intro t below
    rw [Machine.setZmm_zmm]
    have old := inside.base.base.acc t below
    unfold stepAcc at old ⊢
    rcases Nat.lt_trichotomy t (i * params.bReg + j) with
      before | rfl | after
    · have apart : params.zmmC t ≠ params.zmmC (i * params.bReg + j) :=
        fun same => absurd ((zmmC_inj fits).mp same) (by omega)
      rw [Function.update_of_ne apart, old, if_pos before,
        if_pos (by omega)]
    · rw [if_neg (Nat.lt_irrefl _)] at old
      rw [Function.update_self, if_pos (by omega), old, quotient, remainder,
        inside.quad, inside.base.rows j inColumn]
      unfold dotStep
      simp only [dword_splat]
    · have apart : params.zmmC t ≠ params.zmmC (i * params.bReg + j) :=
        fun same => absurd ((zmmC_inj fits).mp same) (by omega)
      rw [Function.update_of_ne apart, old, if_neg (by omega),
        if_neg (by omega)]
  · intro other early
    rw [Machine.setZmm_zmm,
      Function.update_of_ne (zmmC_ne_zmmB fits _ early).symm]
    exact inside.base.rows other early
  · rw [Machine.setZmm_zmm,
      Function.update_of_ne (zmmC_ne_zmmA fits _).symm]
    exact inside.quad

/-- The load of the quad of a row. -/
theorem broadcastA_runs {isVNNIrem : Bool} {quad : BitVec 32}
    {state : State} (narrow : isVNNIrem = true → NarrowMask state)
    (stored : QuadAt state isVNNIrem (state.gpr regTmpAptr) quad) :
    execAll semantics (broadcastA isVNNIrem) state =
      some (state.setZmm zmmA (splat quad)) := by
  cases isVNNIrem with
  | false =>
      rcases readBytes_dword stored with ⟨value, read, low⟩
      simp [broadcastA, execAll, semantics, exec, read, low]
  | true =>
      rcases readBytes_masked (narrow rfl) stored with ⟨value, read, low⟩
      simp [broadcastA, execAll, semantics, exec, read, low]

/-- The broadcast of a row, up to its dot products. -/
theorem broadcast_row (fits : Fits params) {isVNNIrem : Bool}
    {quad : BitVec 32} {state : State}
    (narrow : isVNNIrem = true → NarrowMask entry)
    (stored : QuadAt entry isVNNIrem a quad)
    (inside : InStep params entry a b k tmp params.bReg row acc state) :
    ∃ next, execAll semantics (broadcastA isVNNIrem ++
        [.vpaddb zmmA zmmA params.zmm128,
          .add regTmpAptr (.reg regRsA)]) state = some next ∧
      InRow params entry (a + entry.gpr regRsA) b k tmp quad row acc next := by
  have fixed := inside.base.fixed
  have loaded : execAll semantics (broadcastA isVNNIrem) state =
      some (state.setZmm zmmA (splat quad)) := by
    refine broadcastA_runs ?_ ?_
    · intro rem
      unfold NarrowMask
      rw [fixed.opmask]
      exact narrow rem
    · unfold QuadAt MaskedQuadAt
      rw [fixed.opmask, fixed.memory, inside.base.aPtr]
      exact stored
  have offsets : zipDwords addBytes (splat quad) (splatByte 128#8) =
      splat (offsetQuad quad) := by
    refine ext_dword fun lane => ?_
    rw [dword_zipDwords, dword_splat, dword_splat]
    rfl
  have rsA : state.gpr regRsA = entry.gpr regRsA :=
    fixed.gpr regRsA (by decide)
  refine ⟨(state.setZmm zmmA (splat (offsetQuad quad))).setResult regTmpAptr
    (a + entry.gpr regRsA) (.ofAdd a (entry.gpr regRsA)), ?_, ?_⟩
  · rw [execAll_append, loaded, Option.bind_some]
    simp [execAll, semantics, exec, Machine.zip, Operand.value,
      inside.base.vec128, inside.base.aPtr, rsA, offsets,
      Function.update_of_ne (zmm128_ne_zmmA fits)]
  · refine ⟨⟨⟨(fixed.setZmm _ _).setResult (by decide) _ _, ?_, ?_, ?_, ?_,
      ?_⟩, ?_, ?_⟩, ?_⟩
    · simp
    · simpa using inside.base.bPtr
    · simpa using inside.base.kIter
    · simpa [Function.update_of_ne (zmm128_ne_zmmA fits)] using
          inside.base.vec128
    · intro t below
      simpa [Function.update_of_ne (zmmC_ne_zmmA fits t)] using
          inside.base.acc t below
    · simpa using inside.tmp1
    · intro j below
      simpa [Function.update_of_ne (zmmB_ne_zmmA fits j)] using
          inside.rows j below
    · simp

/-- One row of `BroadcastAVNNIB`. -/
theorem broadcastRow_triple (fits : Fits params) {isVNNIrem : Bool}
    {quad : Nat → BitVec 32} {i : Nat}
    (narrow : isVNNIrem = true → NarrowMask entry)
    (stored : QuadAt entry isVNNIrem a (quad i)) :
    Triple semantics
      (InStep params entry a b k tmp params.bReg row
        (stepAcc params quad row acc (i * params.bReg)))
      (emit (params.broadcastRow isVNNIrem i))
      (InStep params entry (a + entry.gpr regRsA) b k tmp params.bReg row
        (stepAcc params quad row acc ((i + 1) * params.bReg))) := by
  unfold broadcastRow emit
  rw [List.map_append]
  refine (Triple.all fun state inside =>
    broadcast_row fits narrow stored inside).seq ?_
  rw [Nat.succ_mul]
  refine (Triple.mapRange
    (fun j => InRow params entry (a + entry.gpr regRsA) b k tmp (quad i) row
      (stepAcc params quad row acc (i * params.bReg + j))) ?_).weaken
    (fun state inside => inside) (fun state inside => inside.base)
  exact fun j below state inside => dot_step fits below inside

/-- Every row of `BroadcastAVNNIB`. -/
theorem broadcastAVNNIB_triple (fits : Fits params) {isVNNIrem : Bool}
    {quad : Nat → BitVec 32}
    (narrow : isVNNIrem = true → NarrowMask entry)
    (stored : ∀ i < params.MR,
      QuadAt entry isVNNIrem (a + scaled (entry.gpr regRsA) i) (quad i)) :
    Triple semantics
      (InStep params entry a b k tmp params.bReg row
        (stepAcc params quad row acc 0))
      (emit (params.broadcastAVNNIB isVNNIrem))
      (InStep params entry (a + scaled (entry.gpr regRsA) params.MR) b k tmp
        params.bReg row (stepAcc params quad row acc params.cReg)) := by
  unfold broadcastAVNNIB emit
  refine (Triple.flatMapRange
    (fun i => InStep params entry (a + scaled (entry.gpr regRsA) i) b k tmp
      params.bReg row (stepAcc params quad row acc (i * params.bReg)))
    ?_).weaken ?_ (fun state inside => inside)
  · intro i inRow
    rw [scaled_succ, ← BitVec.add_assoc]
    exact broadcastRow_triple fits narrow (stored i inRow)
  · intro state inside
    simpa using inside

/-- What one round of `kLoop` reads. -/
structure Supplied (params : GeneratorParams) (entry : State)
    (isVNNIrem : Bool) (a b : BitVec 64) (quad : Nat → BitVec 32)
    (row : Nat → Zmm) : Prop where
  narrow : isVNNIrem = true → NarrowMask entry
  quads : ∀ i < params.MR,
    QuadAt entry isVNNIrem (a + scaled (entry.gpr regRsA) i) (quad i)
  rows : ∀ j < params.bReg,
    Holds entry.memory (offset b (j * regBytes)) (fun _ => true) (row j)

/-- The accumulators after a round. -/
def roundAcc (params : GeneratorParams) (quad : Nat → BitVec 32)
    (row acc : Nat → Zmm) (t : Nat) : Zmm :=
  dotStep (quad (t / params.bReg)) (row (t % params.bReg)) (acc t)

/-- The registers of B are loaded one after the other. -/
theorem rows_triple (Inv : Nat → State → Prop) (bits masked : Nat)
    (base : Reg64)
    (each : ∀ j < params.bReg, ∀ width state, Inv j state →
      ∃ next, exec (.vmovdqu width .zmm (params.zmmB j) none
          (ptr base (j * regBytes))) state = some next ∧
        Inv (j + 1) next) :
    Triple semantics (Inv 0)
      (emit (((List.range params.bFullReg).map fun i =>
          .vmovdqu bits .zmm (params.zmmB i) none
            (ptr base (i * regBytes))) ++
        if params.useMask then
          [.vmovdqu masked .zmm (params.zmmB params.bFullReg) none
            (ptr base (params.bFullReg * regBytes))]
        else []))
      (Inv params.bReg) := by
  have full : params.bFullReg ≤ params.bReg := Nat.le_add_right _ _
  unfold emit
  rw [List.map_append]
  refine (Triple.mapRange Inv fun j below state inside =>
    each j (by omega) bits state inside).seq ?_
  cases fringe : params.useMask with
  | false =>
      have all : params.bReg = params.bFullReg := by
        simp [bReg, bMaskReg, fringe]
      rw [all]
      exact Triple.nil fun state inside => inside
  | true =>
      have all : params.bReg = params.bFullReg + 1 := by
        simp [bReg, bMaskReg, fringe]
      rw [all]
      intro state inside
      rcases each params.bFullReg (by omega) masked state inside with
        ⟨next, executes, reached⟩
      exact ⟨next, Exec.instr executes, reached⟩

/-- `loadBValues`. -/
theorem loadBValues_triple (fits : Fits params)
    (rows : ∀ j < params.bReg,
      Holds entry.memory (offset b (j * regBytes)) (fun _ => true) (row j)) :
    Triple semantics (InStep params entry a b k tmp 0 row acc)
      (emit params.loadBValues)
      (InStep params entry a b k tmp params.bReg row acc) :=
  rows_triple (fun j => InStep params entry a b k tmp j row acc) 32 8 regBptr
    fun j below _ _ inside => loadB_step fits inside below (rows j below)

/-- One round of `kLoop`. -/
theorem kStep_triple (fits : Fits params) {isVNNIrem : Bool}
    {quad : Nat → BitVec 32}
    (supplied : Supplied params entry isVNNIrem a b quad row) :
    Triple semantics (AtStep params entry a b k acc)
      (emit (params.kStep isVNNIrem))
      (AtStep params entry (a + entry.gpr regCsA) (b + entry.gpr regRsB) k
        (roundAcc params quad row acc)) := by
  have shape : emit (params.kStep isVNNIrem) =
      emit [.mov regTmp1 (.reg regTmpAptr)] ++
        (emit params.loadBValues ++
          (emit [.add regBptr (.reg regRsB)] ++
            (emit (params.broadcastAVNNIB isVNNIrem) ++
              emit [.lea regTmpAptr (ptrScaled regTmp1 regCsA 1)]))) := by
    simp [kStep, emit]
  have copy : Triple semantics (AtStep params entry a b k acc)
      (emit [.mov regTmp1 (.reg regTmpAptr)])
      (InStep params entry a b k a 0 row acc) := by
    intro state base
    refine ⟨_, Exec.instr rfl, ⟨base.fixed.setGpr (by decide) _, ?_, ?_, ?_,
      base.vec128, base.acc⟩, ?_, fun j none => absurd none (by omega)⟩
    · simpa using base.aPtr
    · simpa using base.bPtr
    · simpa using base.kIter
    · simpa [Operand.value] using base.aPtr
  have advance : Triple semantics
      (InStep params entry a b k a params.bReg row acc)
      (emit [.add regBptr (.reg regRsB)])
      (InStep params entry a (b + entry.gpr regRsB) k a params.bReg row
        (stepAcc params quad row acc 0)) := by
    intro state inside
    have rsB := inside.base.fixed.gpr regRsB (by decide)
    refine ⟨_, Exec.instr rfl, ⟨inside.base.fixed.setResult (by decide) _ _,
      ?_, ?_, ?_, inside.base.vec128, ?_⟩, ?_, inside.rows⟩
    · simpa using inside.base.aPtr
    · simp [Operand.value, inside.base.bPtr, rsB]
    · simpa using inside.base.kIter
    · intro t below
      rw [stepAcc, if_neg (Nat.not_lt_zero t)]
      exact inside.base.acc t below
    · simpa using inside.tmp1
  have next : Triple semantics
      (InStep params entry (a + scaled (entry.gpr regRsA) params.MR)
        (b + entry.gpr regRsB) k a params.bReg row
        (stepAcc params quad row acc params.cReg))
      (emit [.lea regTmpAptr (ptrScaled regTmp1 regCsA 1)])
      (AtStep params entry (a + entry.gpr regCsA) (b + entry.gpr regRsB) k
        (roundAcc params quad row acc)) := by
    intro state inside
    have csA := inside.base.fixed.gpr regCsA (by decide)
    refine ⟨_, Exec.instr rfl, inside.base.fixed.setGpr (by decide) _, ?_, ?_,
      ?_, inside.base.vec128, ?_⟩
    · simp [inside.tmp1, csA]
    · simpa using inside.base.bPtr
    · simpa using inside.base.kIter
    · intro t below
      have done := inside.base.acc t below
      rw [stepAcc, if_pos below] at done
      exact done
  rw [shape]
  exact copy.seq ((loadBValues_triple fits supplied.rows).seq
    (advance.seq ((broadcastAVNNIB_triple fits supplied.narrow
      supplied.quads).seq next)))

end Rounds

end AoclDlp.Jit.S8Step
