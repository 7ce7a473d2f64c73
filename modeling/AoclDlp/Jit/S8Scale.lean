import AoclDlp.Jit.S8Accumulate

/-!
# Compensation and scaling

Behind the K loop the accumulators of a row block are corrected by the column
sums of B, multiplied by alpha, and given beta times the old contents of C.
Each part changes the accumulators one after the other.
-/

namespace AoclDlp.Jit.S8Scale

open AoclDlp.DecisionEngine.Scaling
open AoclDlp.Foundations.Assembly
open AoclDlp.Foundations.Avx512
open AoclDlp.Foundations.Lanes
open AoclDlp.Jit.S8Accumulate
open AoclDlp.Jit.S8Allocation
open AoclDlp.Jit.S8Generator
open AoclDlp.Jit.S8Generator.GeneratorParams
open AoclDlp.Jit.S8Step

/-! ## Accumulators one after the other -/

/-- The accumulators when the first `done` of them are changed. -/
def partly (change : Nat → Zmm → Zmm) (acc : Nat → Zmm) (done t : Nat) :
    Zmm :=
  if t < done then change t (acc t) else acc t

theorem update_partly (change : Nat → Zmm → Zmm) (acc : Nat → Zmm)
    (done : Nat) :
    Function.update (partly change acc done) done
        (change done (acc done)) =
      partly change acc (done + 1) := by
  funext t
  unfold partly
  rcases Nat.lt_trichotomy t done with before | rfl | after
  · rw [Function.update_of_ne (by omega), if_pos before, if_pos (by omega)]
  · rw [Function.update_self, if_pos (by omega)]
  · rw [Function.update_of_ne (by omega), if_neg (by omega),
      if_neg (by omega)]

theorem partly_self (change : Nat → Zmm → Zmm) (acc : Nat → Zmm)
    (done : Nat) : partly change acc done done = acc done :=
  if_neg (Nat.lt_irrefl done)

variable {params : GeneratorParams} {entry : State} {acc : Nat → Zmm}

/-! ## Compensation -/

/-- Inside `conversionCompensation`, with the first `loaded` registers of
column sums. -/
structure Summed (params : GeneratorParams) (entry : State)
    (pointer : BitVec 64) (loaded : Nat) (sums : Nat → Zmm)
    (acc : Nat → Zmm) (state : State) : Prop
    extends Settled params entry acc state where
  tmp1 : state.gpr regTmp1 = pointer
  rows : ∀ j < loaded, state.zmm (params.zmmB j) = sums j

/-- The address of the column sums of a tile. -/
def sumsAddress (entry : State) : BitVec 64 :=
  entry.field .bColSumVec + entry.field .bSumOffset * 4

/-- The accumulators behind `conversionCompensation`. -/
def compensated (params : GeneratorParams) (entry : State)
    (sums acc : Nat → Zmm) (t : Nat) : Zmm :=
  if entry.field .isLastK = 0 then acc t
  else zipDwords (· - ·) (acc t) (sums (t % params.bReg))

variable {sums : Nat → Zmm}

theorem sumsPointer_triple :
    Triple semantics (Settled params entry acc)
      (emit [.mov regTmp1 (.field .bColSumVec),
        .mov regTmp3 (.field .bSumOffset),
        .lea regTmp1 (ptrScaled regTmp1 regTmp3 4)])
      (Summed params entry (sumsAddress entry) 0 sums acc) := by
  refine Triple.all fun state settled => ⟨_, rfl,
    ((settled.setGpr (by decide) _).setGpr (by decide) _).setGpr
      (by decide) _, ?_, fun j none => absurd none (by omega)⟩
  simp [sumsAddress, Operand.value, settled.fixed.field]

/-- The column sums that a tile reads. -/
def SumsAt (params : GeneratorParams) (entry : State) (sums : Nat → Zmm) :
    Prop :=
  ∀ j < params.bReg, Holds entry.memory
    (offset (sumsAddress entry) (j * regBytes)) (fun _ => true) (sums j)

/-- The load of one register of column sums. -/
theorem loadSum_step (fits : Fits params) (stored : SumsAt params entry sums)
    {bits j : Nat} (below : j < params.bReg) {state : State}
    (inside : Summed params entry (sumsAddress entry) j sums acc state) :
    ∃ next, exec (.vmovdqu bits .zmm (params.zmmB j) none
        (ptr regTmp1 (j * regBytes))) state = some next ∧
      Summed params entry (sumsAddress entry) (j + 1) sums acc next := by
  have read : readBytes state.memory (offset (state.gpr regTmp1)
      (j * regBytes)) (fun _ => true) = some (sums j) := by
    rw [inside.fixed.memory, inside.tmp1, readBytes_of_holds (stored j below),
      keepBytes_all]
  refine ⟨state.setZmm (params.zmmB j) (sums j), ?_,
    inside.toSettled.setB fits below _, inside.tmp1, ?_⟩
  · simp [exec, read]
  · intro other early
    rw [Machine.setZmm_zmm]
    rcases Nat.lt_or_ge other j with before | last
    · have apart : params.zmmB other ≠ params.zmmB j := fun same =>
        absurd ((zmmB_inj fits).mp same) (by omega)
      rw [Function.update_of_ne apart]
      exact inside.rows other before
    · have same : other = j := by omega
      rw [same, Function.update_self]

/-- `loadBSumValues`. -/
theorem loadBSumValues_triple (fits : Fits params)
    (stored : SumsAt params entry sums) :
    Triple semantics (Settled params entry acc)
      (emit params.loadBSumValues)
      (Summed params entry (sumsAddress entry) params.bReg sums acc) := by
  have shape : emit params.loadBSumValues =
      emit [.mov regTmp1 (.field .bColSumVec),
        .mov regTmp3 (.field .bSumOffset),
        .lea regTmp1 (ptrScaled regTmp1 regTmp3 4)] ++
      emit (((List.range params.bFullReg).map fun i =>
          .vmovdqu 8 .zmm (params.zmmB i) none (ptr regTmp1 (i * regBytes))) ++
        if params.useMask then
          [.vmovdqu 8 .zmm (params.zmmB params.bFullReg) none
            (ptr regTmp1 (params.bFullReg * regBytes))]
        else []) := by
    simp [loadBSumValues, emit]
  rw [shape]
  exact sumsPointer_triple.seq
    (rows_triple
      (fun j => Summed params entry (sumsAddress entry) j sums acc) 8 8
      regTmp1 fun j below _ _ inside => loadSum_step fits stored below inside)

/-- The accumulators when the columns before `j`, and of column `j` the rows
before `i`, are compensated. -/
def partlyCompensated (params : GeneratorParams) (sums acc : Nat → Zmm)
    (j i t : Nat) : Zmm :=
  if t % params.bReg < j ∨ t % params.bReg = j ∧ t / params.bReg < i then
    zipDwords (· - ·) (acc t) (sums (t % params.bReg))
  else acc t

/-- `vpsubd` of a column sum. -/
theorem subtract_step (fits : Fits params) {i j : Nat} {state : State}
    (inRow : i < params.MR) (inColumn : j < params.bReg)
    (inside : Summed params entry (sumsAddress entry) params.bReg sums
      (partlyCompensated params sums acc j i) state) :
    ∃ next, exec (.vpsubd (params.zmmC (i * params.bReg + j))
        (params.zmmC (i * params.bReg + j)) (params.zmmB j)) state =
          some next ∧
      Summed params entry (sumsAddress entry) params.bReg sums
        (partlyCompensated params sums acc j (i + 1)) next := by
  have inRange := accumulator_lt inRow inColumn
  have quotient := accumulator_div i inColumn
  have remainder := accumulator_mod i inColumn
  refine ⟨_, rfl, ?_, inside.tmp1, ?_⟩
  · refine (inside.toSettled.setC fits (i * params.bReg + j) _).congr ?_
    intro t below
    have old := inside.acc _ inRange
    by_cases same : t = i * params.bReg + j
    · have before : partlyCompensated params sums acc j i
          (i * params.bReg + j) = acc (i * params.bReg + j) := by
        unfold partlyCompensated
        rw [quotient, remainder, if_neg (by omega)]
      rw [before] at old
      rw [same, Function.update_self, old, inside.rows j inColumn]
      unfold partlyCompensated
      rw [quotient, remainder, if_pos (by omega)]
    · rw [Function.update_of_ne same]
      have split : ¬ (t % params.bReg = j ∧ t / params.bReg = i) := by
        rintro ⟨column, row⟩
        apply same
        rw [← Nat.div_add_mod t params.bReg, column, row, Nat.mul_comm]
      unfold partlyCompensated
      congr 1
      apply propext
      omega
  · intro other early
    rw [Machine.zip, Machine.setZmm_zmm,
      Function.update_of_ne (zmmC_ne_zmmB fits _ early).symm]
    exact inside.rows other early

/-- `conversionCompensation`. -/
theorem conversionCompensation_triple (fits : Fits params)
    (stored : entry.field .isLastK ≠ 0 → SumsAt params entry sums) :
    Triple semantics (Settled params entry acc)
      params.conversionCompensation
      (Settled params entry (compensated params entry sums acc)) := by
  have tested : Triple semantics (Settled params entry acc)
      (emit [.mov regTmp1 (.field .isLastK), .test regTmp1 regTmp1])
      (fun state => Settled params entry acc state ∧
        Tested (entry.field .isLastK) state) := by
    refine Triple.all fun state settled =>
      ⟨_, rfl, (settled.setGpr (by decide) _).setFlags _, ?_⟩
    simp [Tested, Flags.ofLogic, Operand.value, settled.fixed.field]
  unfold conversionCompensation
  refine tested.seq (Triple.skip ?_ ?_)
  · rintro state ⟨settled, tested⟩ taken
    have flag : state.flags.zero = true := taken
    rw [tested] at flag
    exact settled.congr fun t _ => by rw [compensated, if_pos (eq_of_beq flag)]
  · by_cases zero : entry.field .isLastK = 0
    · rintro state ⟨⟨_, tested⟩, falls⟩
      have flag : state.flags.zero = false := falls
      rw [tested, zero] at flag
      simp at flag
    · have shape : emit (params.loadBSumValues ++ params.subtractSums) =
          emit params.loadBSumValues ++ emit params.subtractSums :=
        List.map_append
      have loads : Triple semantics (Settled params entry acc)
          (emit params.loadBSumValues)
          (Summed params entry (sumsAddress entry) params.bReg sums
            (partlyCompensated params sums acc 0 0)) := by
        refine (loadBSumValues_triple fits (stored zero)).weaken
          (fun state inside => inside) fun state inside =>
            ⟨inside.toSettled.congr fun t _ => ?_, inside.tmp1, inside.rows⟩
        rw [partlyCompensated, if_neg (by simp)]
      have subtracts : Triple semantics
          (Summed params entry (sumsAddress entry) params.bReg sums
            (partlyCompensated params sums acc 0 0))
          (emit params.subtractSums)
          (Summed params entry (sumsAddress entry) params.bReg sums
            (partlyCompensated params sums acc params.bReg 0)) := by
        refine Triple.flatMapRange
          (fun j => Summed params entry (sumsAddress entry) params.bReg sums
            (partlyCompensated params sums acc j 0)) fun j inColumn => ?_
        refine (Triple.mapRange
          (fun i => Summed params entry (sumsAddress entry) params.bReg sums
            (partlyCompensated params sums acc j i))
          fun i inRow state inside =>
            subtract_step fits inRow inColumn inside).weaken
          (fun state inside => inside) fun state inside =>
            ⟨inside.toSettled.congr fun t below => ?_, inside.tmp1,
              inside.rows⟩
        have row := accumulator_row below
        unfold partlyCompensated
        congr 1
        apply propext
        generalize t / params.bReg = done at row
        omega
      rw [shape]
      refine (loads.seq subtracts).weaken (fun state inside => inside.1.1)
        fun state inside => inside.toSettled.congr fun t below => ?_
      have column : t % params.bReg < params.bReg :=
        Nat.mod_lt _ (bReg_pos_of_lt below)
      rw [partlyCompensated, if_pos (Or.inl column), compensated,
        if_neg zero]

/-! ## Scaling -/

/-- Accumulators with a scalar in the register of A. -/
structure Scalar (params : GeneratorParams) (entry : State)
    (word : BitVec 32) (acc : Nat → Zmm) (state : State) : Prop
    extends Settled params entry acc state where
  scalar : state.zmm zmmA = splat word

variable {word : BitVec 32}

/-- The broadcast of a scalar. -/
theorem scalar_triple (fits : Fits params) (field : GemmParams)
    (stored : DwordAt entry.memory (entry.field field) word) :
    Triple semantics (Settled params entry acc)
      (emit [.mov regTmp1 (.field field),
        .vpbroadcastdLoad zmmA (ptr regTmp1 0)])
      (Scalar params entry word acc) := by
  rcases readBytes_dword stored with ⟨value, read, low⟩
  refine Triple.all fun state settled =>
    ⟨(state.setGpr regTmp1 (entry.field field)).setZmm zmmA (splat word), ?_,
      (settled.setGpr (by decide) _).setA fits _, ?_⟩
  · simp [execAll, semantics, exec, Operand.value, settled.fixed.field,
      settled.fixed.memory, read, low]
  · simp

/-- `scaleAlpha`. -/
theorem scaleAlpha_triple (fits : Fits params)
    (stored : DwordAt entry.memory (entry.field .alpha) word) :
    Triple semantics (Settled params entry acc) (emit params.scaleAlpha)
      (Settled params entry fun t =>
        zipDwords (· * ·) (acc t) (splat word)) := by
  have shape : emit params.scaleAlpha =
      emit [.mov regTmp1 (.field .alpha),
        .vpbroadcastdLoad zmmA (ptr regTmp1 0)] ++
      ((List.range params.cReg).map fun t =>
        .vpmulld (params.zmmC t) (params.zmmC t) zmmA).map .instr :=
    List.map_append
  rw [shape]
  refine (scalar_triple fits .alpha stored).seq
    ((Triple.mapRange
      (fun done => Scalar params entry word
        (partly (fun _ value => zipDwords (· * ·) value (splat word)) acc
          done)) ?_).weaken ?_ ?_)
  · intro t below state inside
    refine ⟨_, rfl, ?_, ?_⟩
    · rw [← update_partly]
      refine (inside.toSettled.setC fits t _).congr fun other _ => ?_
      rw [inside.acc t below, inside.scalar, partly_self]
    · rw [Machine.zip, Machine.setZmm_zmm,
        Function.update_of_ne (zmmC_ne_zmmA fits t).symm]
      exact inside.scalar
  · intro state inside
    exact ⟨inside.toSettled.congr fun t _ => (if_neg (Nat.not_lt_zero t)).symm,
      inside.scalar⟩
  · intro state inside
    exact inside.toSettled.congr fun t below => if_pos below

/-- The bytes of C that a register of a row covers. -/
def cells (params : GeneratorParams) (entry : State) (j : Nat) :
    Fin 64 → Bool :=
  entry.selected 32 .zmm (params.finalMask j)

/-- The address of a register of a row of C. -/
def cAddress (entry : State) (i j : Nat) : BitVec 64 :=
  offset (entry.gpr regCPtr + scaled (entry.gpr regRsC) i) (j * regBytes)

/-- The old contents of C, by accumulator. -/
def OldAt (params : GeneratorParams) (entry : State) (old : Nat → Zmm) :
    Prop :=
  ∀ i < params.MR, ∀ j < params.bReg,
    Holds entry.memory (cAddress entry i j) (cells params entry j)
      (old (i * params.bReg + j))

/-- What `scaleBeta` adds to an accumulator. -/
def addOld (params : GeneratorParams) (entry : State) (word : BitVec 32)
    (old : Nat → Zmm) (t : Nat) (value : Zmm) : Zmm :=
  zipDwords (· + ·) value
    (zipDwords (· * ·)
      (keepBytes (cells params entry (t % params.bReg)) (old t))
      (splat word))

/-- Inside `scaleBeta`. -/
structure AtRow (params : GeneratorParams) (entry : State)
    (word : BitVec 32) (i : Nat) (acc : Nat → Zmm) (state : State) : Prop
    extends Scalar params entry word acc state where
  cPtr : state.gpr regTmpCptr =
    entry.gpr regCPtr + scaled (entry.gpr regRsC) i

variable {old : Nat → Zmm}

/-- One register of a row of `scaleBeta`. -/
theorem betaRegister_triple (fits : Fits params)
    (stored : OldAt params entry old) {i j : Nat} (inRow : i < params.MR)
    (inColumn : j < params.bReg) :
    Triple semantics
      (AtRow params entry word i
        (partly (addOld params entry word old) acc (i * params.bReg + j)))
      (emit (params.betaRegister (params.finalMask j) i j))
      (AtRow params entry word i
        (partly (addOld params entry word old) acc
          (i * params.bReg + (j + 1)))) := by
  refine Triple.all fun state inside => ?_
  have inRange := accumulator_lt inRow inColumn
  have remainder := accumulator_mod i inColumn
  have read : readBytes state.memory
      (offset (state.gpr regTmpCptr) (j * regBytes))
      (state.selected 32 .zmm (params.finalMask j)) =
        some (keepBytes (cells params entry j)
          (old (i * params.bReg + j))) := by
    have same : state.selected 32 .zmm (params.finalMask j) =
        cells params entry j := by
      unfold cells Machine.selected
      rw [inside.fixed.opmask]
    rw [inside.fixed.memory, inside.cPtr, same]
    exact readBytes_of_holds (stored i inRow j inColumn)
  let loaded := keepBytes (cells params entry j) (old (i * params.bReg + j))
  let product := zipDwords (· * ·) loaded (splat word)
  have acc_t := inside.acc _ inRange
  rw [partly_self] at acc_t
  refine ⟨(state.setZmm (params.zmmB j) product).setZmm
    (params.zmmC (i * params.bReg + j))
    (zipDwords (· + ·) (acc (i * params.bReg + j)) product), ?_,
    ⟨?_, ?_⟩, ?_⟩
  · simp [betaRegister, execAll, semantics, exec, read, Machine.zip,
      Function.update_of_ne (zmmB_ne_zmmA fits j).symm, inside.scalar,
      Function.update_of_ne (zmmC_ne_zmmB fits _ inColumn), acc_t, product,
      loaded]
  · rw [← Nat.add_assoc, ← update_partly]
    have changed : addOld params entry word old (i * params.bReg + j)
        (acc (i * params.bReg + j)) =
          zipDwords (· + ·) (acc (i * params.bReg + j)) product := by
      rw [addOld, remainder]
    rw [changed]
    exact (inside.toSettled.setB fits inColumn product).setC fits _ _
  · rw [Machine.setZmm_zmm,
      Function.update_of_ne (zmmC_ne_zmmA fits _).symm, Machine.setZmm_zmm,
      Function.update_of_ne (zmmB_ne_zmmA fits _).symm]
    exact inside.scalar
  · exact inside.cPtr

/-- The registers of a row, with the mask of the last one. -/
theorem betaRow_eq (i : Nat) :
    params.betaRow i =
      ((List.range params.bReg).flatMap fun j =>
        params.betaRegister (params.finalMask j) i j) ++
      [.add regTmpCptr (.reg regRsC)] := by
  have full (j : Nat) (below : j < params.bFullReg) :
      params.finalMask j = none := by
    unfold finalMask bReg bMaskReg
    rw [if_neg]
    cases params.useMask with
    | false => simp
    | true =>
        simp only [if_true, Bool.true_and, decide_eq_true_eq]
        omega
  have rows : ((List.range params.bFullReg).flatMap fun j =>
      params.betaRegister (params.finalMask j) i j) =
        (List.range params.bFullReg).flatMap (params.betaRegister none i) := by
    refine List.flatMap_congr fun j member => ?_
    rw [full j (List.mem_range.mp member)]
  unfold betaRow
  congr 1
  cases fringe : params.useMask with
  | false =>
      have all : params.bReg = params.bFullReg := by
        simp [bReg, bMaskReg, fringe]
      rw [all, rows]
      simp
  | true =>
      have all : params.bReg = params.bFullReg + 1 := by
        simp [bReg, bMaskReg, fringe]
      have last : params.finalMask params.bFullReg = some maskS32Reg := by
        simp [finalMask, fringe, all]
      rw [all, List.range_succ, List.flatMap_append, rows]
      simp [last]

/-- `scaleBeta`. -/
theorem scaleBeta_triple (fits : Fits params)
    (scalar : DwordAt entry.memory (entry.field .beta) word)
    (stored : OldAt params entry old) :
    Triple semantics (Settled params entry acc) (emit params.scaleBeta)
      (Settled params entry fun t =>
        addOld params entry word old t (acc t)) := by
  have shape : emit params.scaleBeta =
      emit [.mov regTmp1 (.field .beta),
        .vpbroadcastdLoad zmmA (ptr regTmp1 0)] ++
      (emit [.mov regTmpCptr (.reg regCPtr)] ++
        emit ((List.range params.MR).flatMap params.betaRow)) := by
    simp [scaleBeta, emit]
  have start : Triple semantics (Scalar params entry word acc)
      (emit [.mov regTmpCptr (.reg regCPtr)])
      (AtRow params entry word 0
        (partly (addOld params entry word old) acc (0 * params.bReg))) := by
    refine Triple.all fun state inside => ⟨_, rfl,
      ⟨(inside.toSettled.setGpr (by decide) _).congr fun t _ => ?_,
        inside.scalar⟩, ?_⟩
    · rw [Nat.zero_mul]
      exact (if_neg (Nat.not_lt_zero t)).symm
    · simpa [Operand.value] using inside.fixed.gpr regCPtr (by decide)
  rw [shape]
  refine (scalar_triple fits .beta scalar).seq (start.seq
    ((Triple.flatMapRange
      (fun i => AtRow params entry word i
        (partly (addOld params entry word old) acc (i * params.bReg)))
      ?_).weaken (fun state inside => inside) fun state inside =>
        inside.toSettled.congr fun t below => if_pos below))
  intro i inRow
  have row := Triple.flatMapRange
    (fun j => AtRow params entry word i
      (partly (addOld params entry word old) acc (i * params.bReg + j)))
    fun j inColumn => betaRegister_triple fits stored inRow inColumn
  rw [betaRow_eq, List.map_append, Nat.succ_mul]
  refine row.seq (Triple.all fun state inside => ⟨_, rfl,
    ⟨(inside.toSettled.setGpr (by decide) _).setFlags _, inside.scalar⟩, ?_⟩)
  have rsC := inside.fixed.gpr regRsC (by decide)
  simp [Operand.value, inside.cPtr, rsC, scaled_succ,
    BitVec.add_assoc]

end AoclDlp.Jit.S8Scale
