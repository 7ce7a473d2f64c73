import AoclDlp.Jit.S8Step

/-!
# Accumulation over K

A row block runs `kIterBP` times `K_UNROLL` rounds, then the rest of the quads
of K one by one, and a last round with a masked quad of A.
-/

namespace AoclDlp.Jit.S8Accumulate

open AoclDlp.Foundations.Assembly
open AoclDlp.Foundations.Avx512
open AoclDlp.Foundations.Lanes
open AoclDlp.Jit.S8Allocation
open AoclDlp.Jit.S8Generator
open AoclDlp.Jit.S8Generator.GeneratorParams
open AoclDlp.Jit.S8Step

/-- The operands of a row block: the quads of A by round and row, and the
registers of B by round and column. -/
structure Operands where
  quad : Nat → Nat → BitVec 32
  row : Nat → Nat → Zmm

variable (params : GeneratorParams) (ops : Operands)

/-- The accumulators after a number of rounds. -/
def accAfter : Nat → Nat → Zmm
  | 0 => fun _ => splat 0
  | round + 1 =>
      roundAcc params (ops.quad round) (ops.row round) (accAfter round)

/-- Rounds with a whole quad. -/
def fullRounds (entry : State) : Nat :=
  (entry.field .kIterBP).toNat * params.kUnroll +
    if params.kUnroll = 1 then 0 else (entry.field .kLeftIter).toNat

/-- The field that asks for the masked round. -/
def tailField : GemmParams :=
  if params.kUnroll = 1 then .kLeft else .kLeftRem

/-- Rounds of K. -/
def rounds (entry : State) : Nat :=
  fullRounds params entry +
    if entry.field (tailField params) = 0 then 0 else 1

/-- What the rounds of a row block read. -/
structure Supplies (entry : State) (a b : BitVec 64) : Prop where
  full : ∀ round < fullRounds params entry,
    Supplied params entry false (a + scaled (entry.gpr regCsA) round)
      (b + scaled (entry.gpr regRsB) round) (ops.quad round) (ops.row round)
  tail : entry.field (tailField params) ≠ 0 →
    Supplied params entry true
      (a + scaled (entry.gpr regCsA) (fullRounds params entry))
      (b + scaled (entry.gpr regRsB) (fullRounds params entry))
      (ops.quad (fullRounds params entry)) (ops.row (fullRounds params entry))

/-- Between the rounds of a row block. -/
def AtRound (entry : State) (a b : BitVec 64) (round : Nat)
    (k : BitVec 64) : State → Prop :=
  AtStep params entry (a + scaled (entry.gpr regCsA) round)
    (b + scaled (entry.gpr regRsB) round) k (accAfter params ops round)

/-- The accumulators of a row block, behind the K loop. -/
structure Settled (entry : State) (acc : Nat → Zmm) (state : State) :
    Prop where
  fixed : Fixed entry state
  acc : ∀ t < params.cReg, state.zmm (params.zmmC t) = acc t

/-- Before the K loop of a row block. -/
structure Entered (entry : State) (a b : BitVec 64) (acc : Nat → Zmm)
    (state : State) : Prop extends Settled params entry acc state where
  aPtr : state.gpr regTmpAptr = a
  bPtr : state.gpr regBptr = b

variable {params ops} {entry : State} {a b k : BitVec 64}

namespace Settled

variable {acc : Nat → Zmm} {state : State}

theorem congr {other : Nat → Zmm} (settled : Settled params entry acc state)
    (same : ∀ t < params.cReg, acc t = other t) :
    Settled params entry other state :=
  ⟨settled.fixed, fun t below => (settled.acc t below).trans (same t below)⟩

/-- A write to an accumulator. -/
theorem setC (fits : Fits params) (settled : Settled params entry acc state)
    (t : Nat) (value : Zmm) :
    Settled params entry (Function.update acc t value)
      (state.setZmm (params.zmmC t) value) where
  fixed := settled.fixed.setZmm _ _
  acc other below := by
    rw [Machine.setZmm_zmm]
    by_cases same : other = t
    · rw [same, Function.update_self, Function.update_self]
    · have apart : params.zmmC other ≠ params.zmmC t := fun equal =>
        same ((zmmC_inj fits).mp equal)
      rw [Function.update_of_ne apart, Function.update_of_ne same]
      exact settled.acc other below

/-- A write to a register of B. -/
theorem setB (fits : Fits params) (settled : Settled params entry acc state)
    {j : Nat} (below : j < params.bReg) (value : Zmm) :
    Settled params entry acc (state.setZmm (params.zmmB j) value) where
  fixed := settled.fixed.setZmm _ _
  acc t inRange := by
    rw [Machine.setZmm_zmm,
      Function.update_of_ne (zmmC_ne_zmmB fits t below)]
    exact settled.acc t inRange

/-- A write to the register of A. -/
theorem setA (fits : Fits params) (settled : Settled params entry acc state)
    (value : Zmm) :
    Settled params entry acc (state.setZmm zmmA value) where
  fixed := settled.fixed.setZmm _ _
  acc t inRange := by
    rw [Machine.setZmm_zmm, Function.update_of_ne (zmmC_ne_zmmA fits t)]
    exact settled.acc t inRange

/-- A write to a scratch register. -/
theorem setGpr (settled : Settled params entry acc state)
    {register : Reg64} (fresh : register ∉ fixedRegs) (value : BitVec 64) :
    Settled params entry acc (state.setGpr register value) :=
  ⟨settled.fixed.setGpr fresh value, settled.acc⟩

theorem setFlags (settled : Settled params entry acc state)
    (flags : Flags) : Settled params entry acc { state with flags := flags } :=
  ⟨settled.fixed.setFlags flags, settled.acc⟩

end Settled

theorem AtRound.settled {round : Nat} {state : State}
    (reached : AtRound params ops entry a b round k state) :
    Settled params entry (accAfter params ops round) state :=
  ⟨reached.fixed, reached.acc⟩

/-- `kLoop`. -/
theorem kLoop_triple (fits : Fits params) {isVNNIrem : Bool}
    {first unroll : Nat}
    (supplied : ∀ round, first ≤ round → round < first + unroll →
      Supplied params entry isVNNIrem
        (a + scaled (entry.gpr regCsA) round)
        (b + scaled (entry.gpr regRsB) round) (ops.quad round)
        (ops.row round)) :
    Triple semantics (AtRound params ops entry a b first k)
      (emit (params.kLoop unroll isVNNIrem))
      (AtRound params ops entry a b (first + unroll) k) := by
  unfold kLoop emit
  refine Triple.flatMapRange
    (fun round => AtRound params ops entry a b (first + round) k) ?_
  intro round below
  have next : Triple semantics
      (AtRound params ops entry a b (first + round) k)
      (emit (params.kStep isVNNIrem)) _ :=
    kStep_triple fits (supplied (first + round) (by omega) (by omega))
  unfold AtRound
  rw [← Nat.add_assoc, scaled_succ, scaled_succ, ← BitVec.add_assoc,
    ← BitVec.add_assoc]
  exact next

/-- A counter that has been tested. -/
def Tested (k : BitVec 64) (state : State) : Prop :=
  state.flags.zero = (k == 0)

/-- Load a counter and test it. -/
theorem testCounter_triple {round : Nat} (field : GemmParams) :
    Triple semantics (AtRound params ops entry a b round k)
      (emit [.mov regKIter (.field field), .test regKIter regKIter])
      (fun state =>
        AtRound params ops entry a b round (entry.field field) state ∧
          Tested (entry.field field) state) := by
  refine Triple.all fun state reached => ⟨_, rfl, ?_, ?_⟩
  · refine ⟨(reached.fixed.setGpr (by decide) _).setFlags _, ?_, ?_, ?_,
      reached.vec128, reached.acc⟩
    · simpa using reached.aPtr
    · simpa using reached.bPtr
    · simp [Operand.value, reached.fixed.field]
  · simp [Tested, Flags.ofLogic, Operand.value, reached.fixed.field]

/-- What is left of a counter. -/
def counter (k : BitVec 64) (index : Nat) : BitVec 64 :=
  k - BitVec.ofNat 64 index

theorem counter_zero (k : BitVec 64) : counter k 0 = k := by
  simp [counter]

theorem counter_succ (k : BitVec 64) (index : Nat) :
    counter k index - 1 = counter k (index + 1) := by
  have one : BitVec.ofNat 64 1 = 1 := rfl
  unfold counter
  rw [BitVec.ofNat_add, one]
  ring

theorem counter_end (k : BitVec 64) : counter k k.toNat = 0 := by
  simp [counter]

theorem counter_toNat {k : BitVec 64} {index : Nat}
    (below : index ≤ k.toNat) :
    (counter k index).toNat = k.toNat - index := by
  have small := k.isLt
  unfold counter
  rw [BitVec.toNat_sub, BitVec.toNat_ofNat]
  omega

/-- A counter is one in its last round. -/
theorem counter_last {k : BitVec 64} {index : Nat}
    (below : index < k.toNat) :
    (counter k index != 1) = decide (index + 1 < k.toNat) := by
  have left := counter_toNat (Nat.le_of_lt below)
  by_cases more : index + 1 < k.toNat
  · rw [decide_eq_true more, bne_iff_ne]
    intro one
    rw [one] at left
    have literal : (1 : BitVec 64).toNat = 1 := rfl
    omega
  · rw [decide_eq_false more, bne_eq_false_iff_eq]
    apply BitVec.eq_of_toNat_eq
    have literal : (1 : BitVec 64).toNat = 1 := rfl
    omega

/-- A loop of `kLoop` behind its test. -/
theorem countedLoop_triple (fits : Fits params) (name done : Label)
    (first unroll : Nat) (k : BitVec 64)
    (supplied : ∀ round, first ≤ round →
      round < first + k.toNat * unroll →
      Supplied params entry false
        (a + scaled (entry.gpr regCsA) round)
        (b + scaled (entry.gpr regRsB) round) (ops.quad round)
        (ops.row round)) :
    Triple semantics
      (fun state => AtRound params ops entry a b first k state ∧
        Tested k state)
      (.jcc .e done ::
        ((.label name ::
          (emit (params.kLoop unroll false ++ [.sub regKIter (.imm 1)]) ++
            [.jcc .ne name])) ++
          [.label done]))
      (AtRound params ops entry a b (first + k.toNat * unroll) 0) := by
  refine Triple.skip ?_ ?_
  · rintro state ⟨reached, tested⟩ taken
    have zero : k = 0 := by
      have flag : state.flags.zero = true := taken
      rw [tested] at flag
      exact eq_of_beq flag
    subst zero
    simpa using reached
  · by_cases zero : k = 0
    · rintro state ⟨⟨_, tested⟩, falls⟩
      have flag : state.flags.zero = false := falls
      rw [tested, zero] at flag
      simp at flag
    · have positive : 0 < k.toNat := by
        rcases Nat.eq_zero_or_pos k.toNat with none | some
        · exact absurd (BitVec.eq_of_toNat_eq none) zero
        · exact some
      refine (Triple.loop
        (fun index => AtRound params ops entry a b (first + index * unroll)
          (counter k index)) positive ?_).weaken ?_ ?_
      · intro index below
        have ends : (index + 1) * unroll ≤ k.toNat * unroll :=
          Nat.mul_le_mul_right _ below
        rw [Nat.succ_mul] at ends
        have body : Triple semantics
            (AtRound params ops entry a b (first + index * unroll)
              (counter k index))
            (emit (params.kLoop unroll false))
            (AtRound params ops entry a b (first + index * unroll + unroll)
              (counter k index)) :=
          kLoop_triple fits fun round after before =>
            supplied round (by omega) (by omega)
        have shape : emit (params.kLoop unroll false ++
            [.sub regKIter (.imm 1)]) =
              emit (params.kLoop unroll false) ++
                emit [.sub regKIter (.imm 1)] := List.map_append
        rw [shape, Nat.succ_mul, ← Nat.add_assoc]
        refine body.seq (Triple.all fun state reached => ⟨_, rfl, ?_, ?_⟩)
        · refine ⟨reached.fixed.setResult (by decide) _ _, ?_, ?_, ?_,
            reached.vec128, reached.acc⟩
          · simpa using reached.aPtr
          · simpa using reached.bPtr
          · rw [← counter_succ]
            simp [Operand.value, reached.kIter]
        · rw [← counter_last below]
          simp [semantics, holds, Flags.ofSub,
            Operand.value, reached.kIter, bne]
      · rintro state ⟨⟨reached, _⟩, _⟩
        simpa [counter_zero] using reached
      · intro state reached
        rwa [counter_end] at reached

/-- The rounds of a loop are full ones. -/
theorem Supplies.full_from (supplies : Supplies params ops entry a b)
    (first : Nat) {count : Nat}
    (ends : first + count ≤ fullRounds params entry) (round : Nat)
    (_ : first ≤ round) (before : round < first + count) :
    Supplied params entry false
      (a + scaled (entry.gpr regCsA) round)
      (b + scaled (entry.gpr regRsB) round) (ops.quad round)
      (ops.row round) :=
  supplies.full round (by omega)

/-- The offset and the first counter. -/
theorem prologue_triple (fits : Fits params) :
    Triple semantics
      (Entered params entry a b (accAfter params ops 0))
      (emit [.mov regTmp1 (.imm 128),
        .vpxor .zmm params.zmm128 params.zmm128 params.zmm128,
        .vpbroadcastb params.zmm128 regTmp1,
        .mov regKIter (.field .kIterBP), .test regKIter regKIter])
      (fun state =>
        AtRound params ops entry a b 0 (entry.field .kIterBP) state ∧
          Tested (entry.field .kIterBP) state) := by
  refine Triple.all fun state entered => ⟨_, rfl, ?_, ?_⟩
  · refine ⟨((((entered.fixed.setGpr (by decide) _).setZmm _ _).setZmm
      _ _).setGpr (by decide) _).setFlags _, ?_, ?_, ?_, ?_, ?_⟩
    · simpa [Machine.zip] using entered.aPtr
    · simpa [Machine.zip] using entered.bPtr
    · simp [Machine.zip, Operand.value, entered.fixed.field]
    · simp [Machine.zip, Operand.value]
    · intro t below
      have old := entered.acc t below
      simpa [Machine.zip,
        Function.update_of_ne (zmmC_ne_zmm128 fits t)] using old
  · simp [Tested, Flags.ofLogic, Operand.value, Machine.zip,
      entered.fixed.field]

/-- The main loop over K. -/
theorem accumulate_triple (fits : Fits params)
    (supplies : Supplies params ops entry a b) :
    Triple semantics
      (Entered params entry a b (accAfter params ops 0))
      params.accumulate
      (AtRound params ops entry a b
        ((entry.field .kIterBP).toNat * params.kUnroll) 0) := by
  unfold accumulate
  refine (prologue_triple fits).seq ?_
  have loop := countedLoop_triple fits Label.bloopKiter Label.bconsidKleft 0
    params.kUnroll (entry.field .kIterBP) (supplies.full_from 0 (by
      unfold fullRounds
      omega))
  rwa [Nat.zero_add] at loop

/-- The masked round behind its test. -/
theorem maskedRound_triple (fits : Fits params)
    (supplies : Supplies params ops entry a b) :
    Triple semantics
      (fun state =>
        AtRound params ops entry a b (fullRounds params entry)
            (entry.field (tailField params)) state ∧
          Tested (entry.field (tailField params)) state)
      (.jcc .e .bpostaccum ::
        (emit (params.kLoop 1 true) ++ [.label .bpostaccum]))
      (Settled params entry
        (accAfter params ops (rounds params entry))) := by
  refine Triple.skip ?_ ?_
  · rintro state ⟨reached, tested⟩ taken
    have flag : state.flags.zero = true := taken
    rw [tested] at flag
    rw [rounds, if_pos (eq_of_beq flag), Nat.add_zero]
    exact reached.settled
  · by_cases zero : entry.field (tailField params) = 0
    · rintro state ⟨⟨_, tested⟩, falls⟩
      have flag : state.flags.zero = false := falls
      rw [tested, zero] at flag
      simp at flag
    · rw [rounds, if_neg zero]
      refine (kLoop_triple (k := entry.field (tailField params)) fits
        fun round after before => ?_).weaken
          (fun state inside => inside.1.1) (fun state reached =>
            reached.settled)
      have same : round = fullRounds params entry := by omega
      rw [same]
      exact supplies.tail zero

/-- The rest of K. -/
theorem accumulateTail_triple (fits : Fits params)
    (supplies : Supplies params ops entry a b) :
    Triple semantics
      (AtRound params ops entry a b
        ((entry.field .kIterBP).toNat * params.kUnroll) 0)
      params.accumulateTail
      (Settled params entry
        (accAfter params ops (rounds params entry))) := by
  have masked := maskedRound_triple fits supplies
  unfold accumulateTail
  refine Triple.seq ?_ masked
  by_cases single : params.kUnroll = 1
  · have full : fullRounds params entry =
        (entry.field .kIterBP).toNat * params.kUnroll := by
      rw [fullRounds, if_pos single, Nat.add_zero]
    have field : tailField params = .kLeft := if_pos single
    rw [if_pos single, full, field]
    exact testCounter_triple .kLeft
  · have full : fullRounds params entry =
        (entry.field .kIterBP).toNat * params.kUnroll +
          (entry.field .kLeftIter).toNat * 1 := by
      rw [fullRounds, if_neg single, Nat.mul_one]
    have field : tailField params = .kLeftRem := if_neg single
    have loop := countedLoop_triple fits Label.bloopKleftIter
      Label.bconsidKleftRem ((entry.field .kIterBP).toNat * params.kUnroll) 1
      (entry.field .kLeftIter) (supplies.full_from _ (by omega))
    rw [if_neg single, full, field]
    exact (Triple.label .bconsidKleftIter fun state reached => reached).seq
      ((testCounter_triple .kLeftIter).seq
        (loop.seq (testCounter_triple .kLeftRem)))

end AoclDlp.Jit.S8Accumulate
