import AoclDlp.DecisionEngine.ShapeModel
import AoclDlp.Jit.S8Elements

/-!
# The s8s8s32 kernels of a tile shape

`jitAmdZenS8` generates one kernel for every number of rows up to `MR` and
every number of whole registers of columns up to `NR`, and masked kernels for
the columns behind them.  `executeKernel` splits a block of at most `NR`
columns over these kernels: whole registers first, then the remainder, and for
each the full row blocks before the partial one.
-/

namespace AoclDlp.Jit.S8Execute

open AoclDlp.DecisionEngine.Scaling
open AoclDlp.DecisionEngine.ShapeModel
open AoclDlp.DecisionEngine.ThreadPartition
open AoclDlp.Foundations.Assembly
open AoclDlp.Foundations.Avx512
open AoclDlp.Jit.S8Allocation
open AoclDlp.Jit.S8Generator
open AoclDlp.Jit.S8Step

/-- `VNNI_CONST`. -/
def vnniConst : Nat := 4

/-- `numElemsPerReg`. -/
def numElemsPerReg : Nat := regBytes / vnniConst

/-- `jitAmdZenS8`, as `generateAllKernels` fills it in. -/
structure JitAmdZenS8 where
  MR : Nat
  NR : Nat
  kUnroll : Nat
  alphaScalingType : ScalingType
  betaScalingType : ScalingType
  deriving DecidableEq, Repr

namespace JitAmdZenS8

variable (jit : JitAmdZenS8)

/-- `getProcessBlockSize`. -/
def getProcessBlockSize : Nat := jit.NR

/-- `numNRVariants`. -/
def numNRVariants : Nat := jit.getProcessBlockSize / numElemsPerReg + 1

/-- The parameters of the kernel at `mr` and `nr`. -/
def variant (mr nr : Nat) : GeneratorParams where
  MR := if mr = 0 then jit.MR else mr
  NR := nr * numElemsPerReg
  kUnroll := jit.kUnroll
  mLoop := decide (mr = 0)
  useMask := decide (nr = 0)
  alphaScalingType := jit.alphaScalingType
  betaScalingType := jit.betaScalingType

/-- The parameters of all kernels, in the order of `kernelCodeBlocks`. -/
def variants : List GeneratorParams :=
  (List.range jit.MR).flatMap fun mr =>
    (List.range jit.numNRVariants).map fun nr => jit.variant mr nr

/-- `generateAllKernels` for GEMM; `none` when a kernel is rejected. -/
def generateAllKernels : Option (List Emitted) :=
  jit.variants.mapM GeneratorParams.generateKernel

/-! ## Calls -/

/-- Set a field of the parameters. -/
def setField (field : GemmParams) (value : BitVec 64) (state : State) :
    State :=
  { state with field := Function.update state.field field value }

@[simp]
theorem setField_field (field : GemmParams) (value : BitVec 64)
    (state : State) :
    (setField field value state).field =
      Function.update state.field field value :=
  rfl

@[simp]
theorem setField_memory (field : GemmParams) (value : BitVec 64)
    (state : State) : (setField field value state).memory = state.memory :=
  rfl

/-- `kernelCodeBlocks[index](params)`. -/
def Calls (kernelCodeBlocks : List Emitted) (index : Nat)
    (before after : State) : Prop :=
  ∃ code, kernelCodeBlocks[index]? = some code ∧
    Runs semantics code before after

/-- `utils::offsetOrNull` on a pointer to int32. -/
def offsetOrNull (pointer : BitVec 64) (elements : BitVec 64) : BitVec 64 :=
  if pointer = 0 then 0 else pointer + 4 * elements

/-- A call with the full row blocks, and one with the rows that are left. -/
def ExecutesRows (kernelCodeBlocks : List Emitted) (m kernelNIdx : Nat)
    (before after : State) : Prop :=
  let mFullPieces := m / jit.MR
  let mPartialPieces := m % jit.MR
  ∃ middle,
    (if jit.MR ≤ m then
      Calls kernelCodeBlocks (0 * jit.numNRVariants + kernelNIdx)
        (setField .mIter (BitVec.ofNat 64 mFullPieces) before) middle
    else middle = before) ∧
    if mPartialPieces ≠ 0 then
      let pieces := BitVec.ofNat 64 mFullPieces
      let a := middle.field .a + pieces * middle.field .psA
      let c := offsetOrNull (middle.field .c)
        (pieces * BitVec.ofNat 64 jit.MR * middle.field .rsC)
      Calls kernelCodeBlocks
        (mPartialPieces * jit.numNRVariants + kernelNIdx)
        (setField .c c (setField .a a middle)) after
    else after = middle

/-- The fields that `executeKernel` computes first. -/
def prepare (k : Nat) (state : State) : State :=
  let group := jit.kUnroll * vnniConst
  let kLeft := k % group
  setField .psA (BitVec.ofNat 64 jit.MR * state.field .psA)
    (setField .kLeftmask (BitVec.ofNat 64 (1 <<< (kLeft % vnniConst) - 1))
      (setField .kLeftRem (BitVec.ofNat 64 (kLeft % vnniConst))
        (setField .kLeftIter (BitVec.ofNat 64 (kLeft / vnniConst))
          (setField .kLeft (BitVec.ofNat 64 kLeft)
            (setField .kIterBP (BitVec.ofNat 64 (k / group)) state)))))

/-- The fields of the calls over whole registers of columns. -/
def prepareFull (aPtr cJr : BitVec 64) (nFullpieces : Nat)
    (state : State) : State :=
  setField .c cJr
    (setField .a aPtr
      (setField .rsB
        (BitVec.ofNat 64 (nFullpieces * numElemsPerReg * vnniConst)) state))

/-- The fields behind these calls. -/
def advance (k nFullpieces : Nat) (ogPostOpCI : BitVec 64)
    (state : State) : State :=
  let elementsToProcess := nFullpieces * numElemsPerReg
  let kUpdated := (k + vnniConst - 1) / vnniConst * vnniConst
  setField .postOpCI ogPostOpCI
    (setField .bSumOffset
      (state.field .bSumOffset + BitVec.ofNat 64 (nFullpieces * 16))
      (setField .b
        (state.field .b + BitVec.ofNat 64 (elementsToProcess * kUpdated))
        state))

/-- The fields of the calls over the remainder. -/
def prepareMasked (aPtr cJr : BitVec 64) (nRemainder : Nat)
    (state : State) : State :=
  setField .maskS32
    (BitVec.ofNat 64 (0xFFFF >>> (numElemsPerReg - nRemainder)))
    (setField .rsB (BitVec.ofNat 64 (numElemsPerReg * vnniConst))
      (setField .c cJr (setField .a aPtr state)))

/-- `executeKernel` for GEMM, with the `m`, `n` and `k` of the parameters. -/
def ExecuteKernel (kernelCodeBlocks : List Emitted) (m n k : Nat)
    (start final : State) : Prop :=
  let aPtr := start.field .a
  let cPtr := start.field .c
  let nBlockSize :=
    if jit.getProcessBlockSize ≤ n then jit.getProcessBlockSize else n
  let nFullpieces := nBlockSize / numElemsPerReg
  let nRemainder := nBlockSize % numElemsPerReg
  let cJr :=
    if 0 < nFullpieces then
      offsetOrNull cPtr (BitVec.ofNat 64 (nFullpieces * numElemsPerReg))
    else cPtr
  let entry := jit.prepare k start
  ∃ middle,
    (if 0 < nFullpieces then
      ∃ after,
        jit.ExecutesRows kernelCodeBlocks m nFullpieces
          (prepareFull aPtr cPtr nFullpieces entry) after ∧
        middle = advance k nFullpieces (entry.field .postOpCI) after
    else middle = entry) ∧
    if 0 < nRemainder then
      jit.ExecutesRows kernelCodeBlocks m 0
        (prepareMasked aPtr cJr nRemainder middle) final
    else final = middle

end JitAmdZenS8

/-! ## The table of kernels -/

section Tables

variable {α β : Type}

theorem mapM_isSome_iff (f : α → Option β) (values : List α) :
    (values.mapM f).isSome ↔ ∀ value ∈ values, (f value).isSome := by
  induction values with
  | nil => simp
  | cons head rest ih =>
      rw [List.mapM_cons, List.forall_mem_cons, ← ih]
      cases f head with
      | none => simp
      | some first => cases rest.mapM f <;> simp

theorem mapM_getElem? {f : α → Option β} {values : List α} {results : List β}
    (mapped : values.mapM f = some results) {index : Nat} {value : α}
    (here : values[index]? = some value) :
    ∃ result, results[index]? = some result ∧ f value = some result := by
  induction values generalizing results index with
  | nil => simp at here
  | cons head rest ih =>
      rw [List.mapM_cons] at mapped
      rcases Option.bind_eq_some_iff.mp mapped with ⟨first, one, others⟩
      rcases Option.bind_eq_some_iff.mp others with ⟨tail, many, joined⟩
      cases joined
      cases index with
      | zero =>
          cases here
          exact ⟨first, rfl, one⟩
      | succ index => exact ih many here

/-- An entry of a table of rows. -/
theorem table_getElem? (entry : Nat → Nat → α) {rows width i j : Nat}
    (row : i < rows) (column : j < width) :
    ((List.range rows).flatMap fun i =>
        (List.range width).map (entry i))[i * width + j]? =
      some (entry i j) := by
  have length (count : Nat) : ((List.range count).flatMap fun i =>
      (List.range width).map (entry i)).length = count * width := by
    simp [List.length_flatMap]
  induction rows with
  | zero => exact absurd row (Nat.not_lt_zero i)
  | succ rows ih =>
      rw [List.range_succ, List.flatMap_append, List.flatMap_singleton]
      rcases Nat.lt_or_ge i rows with before | last
      · have inside : i * width + j < rows * width := by
          have ends : (i + 1) * width ≤ rows * width :=
            Nat.mul_le_mul_right _ before
          rw [Nat.succ_mul] at ends
          omega
        rw [List.getElem?_append_left (by rw [length]; exact inside)]
        exact ih before
      · have same : i = rows := by omega
        rw [List.getElem?_append_right (by rw [length, same]; omega), length,
          same, Nat.add_sub_cancel_left]
        simp [column]

end Tables

namespace JitAmdZenS8

variable (jit : JitAmdZenS8)

/-- The kernels of a table that was generated. -/
theorem kernelCodeBlocks_get {blocks : List Emitted}
    (generated : jit.generateAllKernels = some blocks) {mr nr : Nat}
    (row : mr < jit.MR) (column : nr < jit.numNRVariants) :
    ∃ code, blocks[mr * jit.numNRVariants + nr]? = some code ∧
      (jit.variant mr nr).generateKernel = some code :=
  mapM_getElem? generated (table_getElem? jit.variant row column)

theorem forall_variants (claim : GeneratorParams → Prop) :
    (∀ params ∈ jit.variants, claim params) ↔
      ∀ mr < jit.MR, ∀ nr < jit.numNRVariants, claim (jit.variant mr nr) := by
  unfold variants
  constructor
  · intro all mr row nr column
    exact all _ (List.mem_flatMap.mpr ⟨mr, List.mem_range.mpr row,
      List.mem_map.mpr ⟨nr, List.mem_range.mpr column, rfl⟩⟩)
  · intro all params member
    rcases List.mem_flatMap.mp member with ⟨mr, row, inRow⟩
    rcases List.mem_map.mp inRow with ⟨nr, column, rfl⟩
    exact all mr (List.mem_range.mp row) nr (List.mem_range.mp column)

/-! ## Which tiles are generated -/

/-- The widest row of B, in registers. -/
def widest : Nat := max 1 (jit.NR / numElemsPerReg)

theorem variant_bReg (mr nr : Nat) :
    (jit.variant mr nr).bReg = max 1 nr := by
  have full : (jit.variant mr nr).bFullReg = nr :=
    Nat.mul_div_cancel nr (by decide)
  have mask : (jit.variant mr nr).bMaskReg = if nr = 0 then 1 else 0 := by
    simp [GeneratorParams.bMaskReg, variant]
  rw [GeneratorParams.bReg, full, mask]
  split_ifs <;> omega

theorem variant_cReg (mr nr : Nat) :
    (jit.variant mr nr).cReg =
      (if mr = 0 then jit.MR else mr) * max 1 nr := by
  rw [GeneratorParams.cReg, variant_bReg]
  rfl

theorem width_le {nr : Nat} (column : nr < jit.numNRVariants) :
    max 1 nr ≤ jit.widest := by
  unfold numNRVariants getProcessBlockSize at column
  unfold widest
  omega

theorem rows_le {mr : Nat} (row : mr < jit.MR) :
    (if mr = 0 then jit.MR else mr) ≤ jit.MR := by
  split_ifs <;> omega

/-- Every kernel is separate exactly when the widest one of all rows is. -/
theorem variants_fit_iff (rows : 0 < jit.MR) :
    (∀ params ∈ jit.variants, Fits params) ↔
      (jit.MR + 1) * jit.widest + 2 ≤ numRegs := by
  rw [forall_variants]
  constructor
  · intro fits
    have last := fits 0 rows (jit.NR / numElemsPerReg) (Nat.lt_succ_self _)
    unfold Fits at last
    rw [variant_cReg, variant_bReg, if_pos rfl] at last
    rw [Nat.succ_mul]
    exact last
  · intro room mr row nr column
    have products : (if mr = 0 then jit.MR else mr) * max 1 nr ≤
        jit.MR * jit.widest :=
      Nat.mul_le_mul (jit.rows_le row) (jit.width_le column)
    have width := jit.width_le column
    unfold Fits
    rw [variant_cReg, variant_bReg]
    rw [Nat.succ_mul] at room
    omega

/-- `generateAllKernels` asks for room for the accumulators only. -/
theorem generateAllKernels_isSome_iff (rows : 0 < jit.MR)
    (unroll : 0 < jit.kUnroll) :
    jit.generateAllKernels.isSome ↔ jit.MR * jit.widest + 2 ≤ numRegs := by
  have accepts (mr nr : Nat) :
      (jit.variant mr nr).generateKernel.isSome ↔
        0 < (if mr = 0 then jit.MR else mr) ∧
          (if mr = 0 then jit.MR else mr) * max 1 nr + 2 ≤ numRegs := by
    have room : 1 ≤ (jit.variant mr nr).aReg ↔
        (if mr = 0 then jit.MR else mr) * max 1 nr + 2 ≤ numRegs := by
      unfold GeneratorParams.aReg
      rw [variant_cReg]
      unfold numRegs
      omega
    unfold GeneratorParams.generateKernel
    rw [← room]
    have check : (jit.variant mr nr).accepted = true ↔
        0 < (if mr = 0 then jit.MR else mr) ∧
          1 ≤ (jit.variant mr nr).aReg := by
      have positive : decide (0 < (jit.variant mr nr).kUnroll) = true :=
        decide_eq_true unroll
      rw [GeneratorParams.accepted, positive, Bool.and_true, Bool.and_eq_true,
        decide_eq_true_eq, decide_eq_true_eq]
      rfl
    rw [← check]
    cases (jit.variant mr nr).accepted <;> simp
  unfold generateAllKernels
  rw [mapM_isSome_iff, forall_variants]
  constructor
  · intro all
    have last := (accepts 0 _).mp
      (all 0 rows (jit.NR / numElemsPerReg) (Nat.lt_succ_self _))
    rw [if_pos rfl] at last
    exact last.2
  · intro room mr row nr column
    have products : (if mr = 0 then jit.MR else mr) * max 1 nr ≤
        jit.MR * jit.widest :=
      Nat.mul_le_mul (jit.rows_le row) (jit.width_le column)
    refine (accepts mr nr).mpr ⟨?_, by omega⟩
    split_ifs <;> omega

end JitAmdZenS8

/-- `sweepCandidates` selects the baseline tile or a candidate. -/
theorem sweepCandidates_tile (adjustWays : AdjustWays)
    (input : GemmShapeModelInput) (candidates : List KernelDims) :
    (⟨(input.sweepCandidates adjustWays candidates).mr,
      (input.sweepCandidates adjustWays candidates).nr⟩ : KernelDims) ∈
        input.baselineKernelDims :: candidates := by
  have considered : ∀ (rest : List KernelDims)
      (best : Option (GemmShapeModelResult × Nat)),
      (∀ shape cost, best = some (shape, cost) →
        (⟨shape.mr, shape.nr⟩ : KernelDims) ∈ candidates) →
      (∀ dims ∈ rest, dims ∈ candidates) →
      ∀ shape cost, rest.foldl (input.considerCandidate adjustWays) best =
          some (shape, cost) →
        (⟨shape.mr, shape.nr⟩ : KernelDims) ∈ candidates := by
    intro rest
    induction rest with
    | nil => exact fun best held _ shape cost ends => held shape cost ends
    | cons dims rest ih =>
        intro best held members shape cost ends
        refine ih _ ?_ (fun other member =>
          members other (List.mem_cons_of_mem _ member)) shape cost ends
        intro next price chosen
        have first := members dims List.mem_cons_self
        unfold GemmShapeModelInput.considerCandidate at chosen
        cases best with
        | none =>
            split_ifs at chosen
            · cases chosen
              exact first
        | some incumbent =>
            dsimp only at chosen
            split_ifs at chosen
            · cases chosen
              exact first
            · exact held next price chosen
            · exact held next price chosen
  unfold GemmShapeModelInput.sweepCandidates
  split
  · exact List.mem_cons_self
  · next shape cost ends =>
      exact List.mem_cons_of_mem _ (considered candidates none
        (fun _ _ none => nomatch none) (fun _ member => member) shape cost
        ends)

/-- The tile that the S8 backend resolves. -/
theorem resolveGemmShape_s8_tile (machine : Machine)
    (input : GemmShapeModelInput) :
    (⟨(GemmBackend.s8.resolveGemmShape machine input).mr,
      (GemmBackend.s8.resolveGemmShape machine input).nr⟩ : KernelDims) ∈
        [input.baselineKernelDims, ⟨6, 64⟩, ⟨8, 48⟩] := by
  unfold GemmBackend.resolveGemmShape
  split_ifs with consulted
  · exact sweepCandidates_tile int8AdjustWays input
      (GemmBackend.candidateTiles .s8)
  · exact List.mem_cons_self


namespace JitAmdZenS8

variable (jit : JitAmdZenS8)

/--
A tile that the S8 backend resolves from a baseline of several rows and columns
with room for B is generated with an unrolled K loop, and no two roles of its
kernels share a register.
-/
theorem resolved_kernels_separate (machine : Machine)
    (input : GemmShapeModelInput) (rows : 1 < input.mr)
    (_columns : 1 < input.nr)
    (room : (input.mr + 1) * max 1 (input.nr / numElemsPerReg) + 2 ≤ numRegs)
    (unroll : 0 < jit.kUnroll)
    (resolvedMR :
      jit.MR = (GemmBackend.s8.resolveGemmShape machine input).mr)
    (resolvedNR :
      jit.NR = (GemmBackend.s8.resolveGemmShape machine input).nr) :
    jit.generateAllKernels.isSome ∧
      ∀ params ∈ jit.variants, Separate params := by
  have tile := resolveGemmShape_s8_tile machine input
  rw [← resolvedMR, ← resolvedNR] at tile
  have fits : 0 < jit.MR ∧ (jit.MR + 1) * jit.widest + 2 ≤ numRegs := by
    unfold widest
    simp only [List.mem_cons, List.not_mem_nil, or_false,
      KernelDims.mk.injEq, GemmShapeModelInput.baselineKernelDims] at tile
    rcases tile with ⟨mr, nr⟩ | ⟨mr, nr⟩ | ⟨mr, nr⟩
    · rw [mr, nr]
      exact ⟨Nat.zero_lt_of_lt rows, room⟩
    · rw [mr, nr]
      decide
    · rw [mr, nr]
      decide
  have narrower : jit.MR * jit.widest ≤ (jit.MR + 1) * jit.widest :=
    Nat.mul_le_mul_right _ (Nat.le_succ _)
  refine ⟨(jit.generateAllKernels_isSome_iff fits.1 unroll).mpr (by omega),
    fun params member => separate_of_fits params ?_⟩
  exact (jit.variants_fit_iff fits.1).mpr fits.2 params member

/-- A machine whose shape model is consulted for reordered operands. -/
def modelledMachine : Machine where
  processor := ⟨true, true, true, true, true, .zen5, false⟩
  topology := ⟨8, 33554432⟩

/-- A call on one thread over a reordered B. -/
def modelledInput : GemmShapeModelInput where
  m := 96
  n := 480
  k := 512
  mr := 6
  nr := 64
  frozen := ⟨false, false, false, false, false⟩
  numThreads := 1
  icWays := 1
  jcWays := 1
  bReordered := true

/-- The tile that the shape model resolves there is generated, and its
kernels are separate. -/
theorem resolved_kernels_separate_model :
    GemmBackend.s8.canUseAnalyticalShapeModel modelledMachine.processor
        modelledInput = true ∧
      let shape := GemmBackend.s8.resolveGemmShape modelledMachine modelledInput
      let jit : JitAmdZenS8 := ⟨shape.mr, shape.nr, 2, .generic, .generic⟩
      jit.generateAllKernels.isSome ∧
        ∀ params ∈ jit.variants, Separate params :=
  ⟨by decide, resolved_kernels_separate _ modelledMachine modelledInput
    (by decide) (by decide) (by decide) (by decide) rfl rfl⟩

end JitAmdZenS8

end AoclDlp.Jit.S8Execute
