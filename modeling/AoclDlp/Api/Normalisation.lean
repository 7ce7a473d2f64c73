import AoclDlp.Api.F32Gemm
import Mathlib.Data.Sym.Sym2

/-!
# The problem behind the F32 operands

A tuple of operands denotes a problem: the elements that a kernel multiplies at
each coordinate, and the address that it writes.  Swapping the matrices and
exchanging their strides turns a problem around its diagonal, so every rewrite
of the entry point keeps the caller's problem or transposes it.
-/

namespace AoclDlp.Api.Normalisation

open AoclDlp.Api.F32Gemm
open AoclDlp.Api.GemmCheck
open AoclDlp.Config.BlockSize
open AoclDlp.Config.LocalContext

/-! ## Problems -/

/-- An element of one of the caller's matrices. -/
abbrev Element :=
  Operand × Nat

/-- A product: its shape, its factors and the addresses of its results. -/
@[ext]
structure Problem where
  m : Nat
  n : Nat
  left : Nat → Nat → Element
  right : Nat → Nat → Element
  result : Nat → Nat → Nat

namespace Problem

/-- The problem with rows and columns in each other's place. -/
def transpose (problem : Problem) : Problem where
  m := problem.n
  n := problem.m
  left i p := problem.right p i
  right p j := problem.left j p
  result i j := problem.result j i

@[simp]
theorem transpose_transpose (problem : Problem) :
    problem.transpose.transpose = problem :=
  rfl

/-- A problem, or its transpose. -/
def turned (problem : Problem) (turn : Bool) : Problem :=
  if turn then problem.transpose else problem

@[simp]
theorem transpose_turned (problem : Problem) (turn : Bool) :
    (problem.turned turn).transpose = problem.turned !turn := by
  cases turn <;> rfl

end Problem

/-- Where a stored matrix keeps an element. -/
def matrixAddress (order : Char) (ld row column : Nat) : Nat :=
  if isRowMajor order then ld * row + column else row + ld * column

/-- Where a stored matrix keeps an element of `op` of it. -/
def opAddress (order trans : Char) (ld row column : Nat) : Nat :=
  if isTrans trans then matrixAddress order ld column row
  else matrixAddress order ld row column

/-- The problem of the caller. -/
def callerProblem (args : GemmArgs) : Problem where
  m := args.m.toNat
  n := args.n.toNat
  left i p := (.a, opAddress args.order args.transa args.lda.toNat i p)
  right p j := (.b, opAddress args.order args.transb args.ldb.toNat p j)
  result i j := matrixAddress args.order args.ldc.toNat i j

/-- The problem that a kernel solves on a tuple of operands. -/
def kernelProblem (ops : Operands) : Problem where
  m := ops.m
  n := ops.n
  left i p := (ops.aUse, ops.rsA * i + ops.csA * p)
  right p j := (ops.bUse, ops.rsB * p + ops.csB * j)
  result i j := ops.rsC * i + ops.csC * j

/-! ## Rewrites -/

theorem kernelProblem_swap (ops : Operands) :
    kernelProblem ops.swap =
      (kernelProblem ops.exchangeStrides).transpose := by
  ext i j
  · rfl
  · rfl
  · rfl
  · exact Nat.add_comm _ _
  · rfl
  · exact Nat.add_comm _ _
  · exact Nat.add_comm _ _

theorem kernelProblem_transpose (ops : Operands) :
    kernelProblem ops.transpose = (kernelProblem ops).transpose :=
  kernelProblem_swap ops.exchangeStrides

/-- Row-major operands are the caller's problem as they are stored. -/
theorem kernelProblem_stored {args : GemmArgs}
    (rowMajor : isRowMajor args.order = true) :
    kernelProblem (storedOperands args) = callerProblem args := by
  unfold kernelProblem storedOperands callerProblem opAddress matrixAddress
  simp only [rowMajor, if_true]
  ext i j
  · rfl
  · rfl
  · rfl
  · cases isTrans args.transa with
    | true => simp [Nat.add_comm]
    | false => simp
  · rfl
  · cases isTrans args.transb with
    | true => simp [Nat.add_comm]
    | false => simp
  · simp

/-- Column-major operands are the caller's problem with strides exchanged. -/
theorem kernelProblem_stored_column {args : GemmArgs}
    (columnMajor : ¬ isRowMajor args.order = true) :
    kernelProblem (storedOperands args).exchangeStrides =
      callerProblem args := by
  unfold kernelProblem storedOperands Operands.exchangeStrides callerProblem
    opAddress matrixAddress
  simp only [columnMajor]
  ext i j
  · rfl
  · rfl
  · rfl
  · cases isTrans args.transa with
    | true => simp [Nat.add_comm]
    | false => simp
  · rfl
  · cases isTrans args.transb with
    | true => simp [Nat.add_comm]
    | false => simp
  · simp

/-- Column-major operands are swapped into the transposed problem. -/
theorem kernelProblem_columnMajor {args : GemmArgs}
    (columnMajor : ¬ isRowMajor args.order = true) :
    kernelProblem (columnMajorTags args (storedOperands args)).swap =
      (callerProblem args).transpose := by
  rw [kernelProblem_swap, ← kernelProblem_stored_column columnMajor]
  rfl

/-- The operands present the caller's problem, turned or not. -/
def Presents (ops : Operands) (args : GemmArgs) (turn : Bool) : Prop :=
  kernelProblem ops = (callerProblem args).turned turn

/-- With several rows and columns the order tells whether the problem is
turned. -/
theorem gemmOperands_presents (induces : Bool) (args : GemmArgs) :
    ∃ turn, Presents (gemmOperands induces args) args turn ∧
      isRowMajor (gemmOperands induces args).order = !turn := by
  unfold gemmOperands Presents
  dsimp only
  by_cases rowMajor : isRowMajor args.order = true
  · have stored := kernelProblem_stored rowMajor
    rw [if_pos rowMajor]
    split_ifs
    · refine ⟨true, ?_, rfl⟩
      exact (kernelProblem_transpose _).trans
        (congrArg Problem.transpose stored)
    · exact ⟨false, stored, rowMajor⟩
    · exact ⟨false, stored, rowMajor⟩
  · rw [if_neg rowMajor]
    split_ifs
    · exact ⟨false, kernelProblem_stored_column rowMajor, rfl⟩
    · exact ⟨true, kernelProblem_columnMajor rowMajor,
        Bool.not_eq_true _ ▸ rowMajor⟩

/-- The operands of a vector problem before a vector changes sides. -/
def gemvStored (args : GemmArgs) : Operands :=
  let ops := storedOperands args
  if isRowMajor args.order then
    { ops with
      mtagB := packIf
        (decide (ops.mtagB ≠ .reordered) && isTrans args.transb) ops.mtagB
      mtagA := packIf (isTrans args.transa) ops.mtagA }
  else (columnMajorTags args ops).swap

/-- A vector changes sides where its kernel then needs no packing. -/
def moveVector (transa transb : Bool) (tmp : Operands) : Operands :=
  if tmp.m = 1 ∧ transb = true ∧ tmp.mtagB ≠ .reordered then
    { tmp.transpose with mtagA := .unpacked }
  else if tmp.n = 1 ∧ transa = true ∧ tmp.rsC = 1 then
    { tmp.transpose with mtagB := .unpacked }
  else tmp

theorem gemvOperands_eq (postOpsDisabled : Bool) (args : GemmArgs) :
    gemvOperands postOpsDisabled args =
      if postOpsDisabled then
        moveVector
          (isTrans (if isRowMajor args.order then args.transa
            else args.transb))
          (isTrans (if isRowMajor args.order then args.transb
            else args.transa))
          (gemvStored args)
      else gemvStored args :=
  rfl

/-- The operands of a vector problem are the stored ones, or transposed. -/
theorem gemvOperands_cases (postOpsDisabled : Bool) (args : GemmArgs) :
    gemvOperands postOpsDisabled args = gemvStored args ∨
      (postOpsDisabled = true ∧ (gemvStored args).m = 1 ∧
        gemvOperands postOpsDisabled args =
          { (gemvStored args).transpose with mtagA := .unpacked }) ∨
      (postOpsDisabled = true ∧
        isTrans (if isRowMajor args.order then args.transa
          else args.transb) = true ∧ (gemvStored args).rsC = 1 ∧
        gemvOperands postOpsDisabled args =
          { (gemvStored args).transpose with mtagB := .unpacked }) := by
  rw [gemvOperands_eq]
  generalize isTrans (if isRowMajor args.order then args.transb
    else args.transa) = transb
  generalize isTrans (if isRowMajor args.order then args.transa
    else args.transb) = transa
  cases postOpsDisabled with
  | false => exact Or.inl rfl
  | true =>
      rw [if_pos rfl]
      unfold moveVector
      split
      next row => exact Or.inr (Or.inl ⟨rfl, row.1, rfl⟩)
      next =>
        split
        next column =>
          exact Or.inr (Or.inr ⟨rfl, column.2.1, column.2.2, rfl⟩)
        next => exact Or.inl rfl

theorem gemvStored_presents (args : GemmArgs) :
    Presents (gemvStored args) args (!isRowMajor args.order) ∧
      (gemvStored args).order = args.order := by
  unfold gemvStored Presents
  dsimp only
  by_cases rowMajor : isRowMajor args.order = true
  · rw [if_pos rowMajor, rowMajor]
    exact ⟨kernelProblem_stored rowMajor, rfl⟩
  · rw [if_neg rowMajor, Bool.eq_false_of_not_eq_true rowMajor]
    exact ⟨kernelProblem_columnMajor rowMajor, rfl⟩

/-- With one row or column the order tells it as long as there are post-ops. -/
theorem gemvOperands_presents (postOpsDisabled : Bool) (args : GemmArgs) :
    ∃ turn, Presents (gemvOperands postOpsDisabled args) args turn ∧
      (postOpsDisabled = false →
        isRowMajor (gemvOperands postOpsDisabled args).order = !turn) := by
  rcases gemvStored_presents args with ⟨presents, order⟩
  have transposed : kernelProblem (gemvStored args).transpose =
      (callerProblem args).turned (isRowMajor args.order) := by
    rw [kernelProblem_transpose, presents, Problem.transpose_turned,
      Bool.not_not]
  rcases gemvOperands_cases postOpsDisabled args with
    same | ⟨disabled, -, same⟩ | ⟨disabled, -, -, same⟩
  · refine ⟨_, same.symm ▸ presents, fun _ => ?_⟩
    rw [same, order, Bool.not_not]
  · refine ⟨_, (congrArg kernelProblem same).trans transposed, ?_⟩
    intro enabled
    exact absurd disabled (enabled ▸ Bool.false_ne_true)
  · refine ⟨_, (congrArg kernelProblem same).trans transposed, ?_⟩
    intro enabled
    exact absurd disabled (enabled ▸ Bool.false_ne_true)

/-! ## Unpacked B -/

theorem packIf_unpacked {trans : Bool} {mtag : MemoryTag}
    (unpacked : packIf trans mtag = .unpacked) :
    trans = false ∧ mtag = .unpacked := by
  cases trans with
  | true => cases unpacked
  | false => exact ⟨rfl, unpacked⟩

/-- An unpacked A of a column-major problem is not transposed. -/
theorem columnMajorTags_unpacked {args : GemmArgs} {ops : Operands}
    (unpacked : (columnMajorTags args ops).mtagA = .unpacked) :
    isTrans args.transa = false := by
  rcases packIf_unpacked unpacked with ⟨plain, same⟩
  rw [same, decide_eq_true rfl, Bool.and_true] at plain
  exact plain

/-- An unpacked B has unit column stride. -/
theorem gemmOperands_unpacked (induces : Bool) {args : GemmArgs}
    (unpacked : (gemmOperands induces args).mtagB = .unpacked) :
    (gemmOperands induces args).csB = 1 := by
  revert unpacked
  unfold gemmOperands
  dsimp only
  split_ifs with rowMajor plain both reversed <;> intro unpacked
  · have trans : isTrans args.transa = true := (Bool.and_eq_true_iff.mp both).2
    exact if_pos trans
  · have plain := (packIf_unpacked unpacked).1
    exact if_neg (Bool.not_eq_true _ ▸ plain)
  · exact absurd unpacked (by
      change (storedOperands args).mtagB ≠ .unpacked
      rw [not_not.mp plain]
      decide)
  · have trans : isTrans args.transb = true :=
      (Bool.and_eq_true_iff.mp reversed).2
    exact if_pos trans
  · have plain := columnMajorTags_unpacked unpacked
    exact if_neg (Bool.not_eq_true _ ▸ plain)

theorem gemvStored_unpacked {args : GemmArgs}
    (unpacked : (gemvStored args).mtagB = .unpacked) :
    (gemvStored args).csB = 1 := by
  revert unpacked
  unfold gemvStored
  dsimp only
  split_ifs <;> intro unpacked
  · rcases packIf_unpacked unpacked with ⟨plain, same⟩
    have stored : (storedOperands args).mtagB ≠ .reordered := by
      rw [same]
      decide
    rw [decide_eq_true stored, Bool.true_and] at plain
    exact if_neg (Bool.not_eq_true _ ▸ plain)
  · have plain := columnMajorTags_unpacked unpacked
    exact if_neg (Bool.not_eq_true _ ▸ plain)

/-- The transposed vector operand becomes a B of unit column stride. -/
theorem gemvStored_trans {args : GemmArgs}
    (trans : isTrans (if isRowMajor args.order then args.transa
      else args.transb) = true) :
    (gemvStored args).rsA = 1 := by
  revert trans
  unfold gemvStored
  dsimp only
  split_ifs <;> intro trans
  · exact if_pos trans
  · exact if_pos trans

theorem gemvOperands_unpacked (postOpsDisabled : Bool) {args : GemmArgs}
    (unpacked : (gemvOperands postOpsDisabled args).mtagB = .unpacked)
    (columns : 1 < (gemvOperands postOpsDisabled args).n) :
    (gemvOperands postOpsDisabled args).csB = 1 := by
  rcases gemvOperands_cases postOpsDisabled args with
    same | ⟨-, row, same⟩ | ⟨-, trans, -, same⟩
  · rw [same] at unpacked ⊢
    exact gemvStored_unpacked unpacked
  · rw [same] at columns
    exact absurd columns (not_lt.mpr (le_of_eq row))
  · rw [same]
    exact gemvStored_trans trans

/-! ## The entry point -/

section Entry

variable {Scalar : Type} [BEq Scalar] [OfNat Scalar 0]

/-- Settling the context keeps the operands. -/
theorem settleF32_operands {around : F32Surroundings} {beta : Scalar}
    {metadata : Option DlpMetadata} {ops : Operands} {k : Nat}
    {lcntx : DlpGemmCntx} {run : F32Run Scalar}
    (settles : settleF32 around beta metadata ops k lcntx = .ok run) :
    run.ops = ops ∧ run.k = k := by
  unfold settleF32 at settles
  split at settles
  · cases settles
  next =>
    rcases bind_ok settles with ⟨_, -, settles⟩
    rcases bind_ok settles with ⟨_, -, settles⟩
    cases settles
    exact ⟨rfl, rfl⟩

/-- The operands that a run passes on. -/
theorem run_operands {around : F32Surroundings} {args : F32Args Scalar}
    {metadata : Option DlpMetadata} {hasPostOps : Bool}
    {run : F32Run Scalar}
    (runs : aoclGemmF32f32f32of32 around args metadata hasPostOps =
      .ok run) :
    run.k = args.gemm.k.toNat ∧
      ∃ postOpsDisabled induces, around.postOps = .ok postOpsDisabled ∧
        run.ops =
          if (storedOperands args.gemm).m = 1 ∨
              (storedOperands args.gemm).n = 1 then
            gemvOperands postOpsDisabled args.gemm
          else gemmOperands induces args.gemm := by
  unfold aoclGemmF32f32f32of32 at runs
  rcases bind_ok runs with ⟨_, -, runs⟩
  rcases bind_ok runs with ⟨_, -, runs⟩
  rcases bind_ok runs with ⟨_, -, runs⟩
  rcases bind_ok runs with ⟨_, -, runs⟩
  rcases bind_ok runs with ⟨postOpsDisabled, postOps, runs⟩
  rcases settleF32_operands runs with ⟨operands, depth⟩
  exact ⟨depth, postOpsDisabled, _, postOps, operands⟩

/-- A run passes on the caller's problem, turned or not; with a post-op the
order tells which. -/
theorem run_presents {around : F32Surroundings} {args : F32Args Scalar}
    {metadata : Option DlpMetadata} {hasPostOps : Bool}
    {run : F32Run Scalar}
    (runs : aoclGemmF32f32f32of32 around args metadata hasPostOps =
      .ok run) :
    ∃ turn, Presents run.ops args.gemm turn ∧
      (around.postOps = .ok false → isRowMajor run.ops.order = !turn) := by
  rcases run_operands runs with ⟨-, disabled, induces, postOps, operands⟩
  rw [operands, postOps]
  split
  · rcases gemvOperands_presents disabled args.gemm with
      ⟨turn, presents, order⟩
    exact ⟨turn, presents, fun present => order (Except.ok.inj present)⟩
  · rcases gemmOperands_presents induces args.gemm with
      ⟨turn, presents, order⟩
    exact ⟨turn, presents, fun _ => order⟩

/-- A tuple of operands denotes the caller's problem under a correspondence
between the coordinates of the kernel and those of the caller. -/
structure Denotes (args : GemmArgs) (ops : Operands)
    (coordinates : Nat × Nat ≃ Nat × Nat) : Prop where
  inside : ∀ i j, i < ops.m ∧ j < ops.n ↔
    (coordinates (i, j)).1 < args.m.toNat ∧
      (coordinates (i, j)).2 < args.n.toNat
  written : ∀ i j, ops.rsC * i + ops.csC * j =
    matrixAddress args.order args.ldc.toNat (coordinates (i, j)).1
      (coordinates (i, j)).2
  multiplied : dlpParamMapCharToLpmtag args.memFormatB ≠ .reordered →
    ∀ i j p, s(((ops.aUse, ops.rsA * i + ops.csA * p) : Element),
        (ops.bUse, ops.rsB * p + ops.csB * j)) =
      s((.a, opAddress args.order args.transa args.lda.toNat
          (coordinates (i, j)).1 p),
        (.b, opAddress args.order args.transb args.ldb.toNat p
          (coordinates (i, j)).2))

/-- The coordinates of a problem that may be turned. -/
def turnedCoordinates (turn : Bool) : Nat × Nat ≃ Nat × Nat :=
  if turn then Equiv.prodComm Nat Nat else Equiv.refl _

theorem turnedCoordinates_refl_iff (turn : Bool) :
    turnedCoordinates turn = Equiv.refl _ ↔ turn = false := by
  cases turn with
  | false => exact iff_of_true rfl rfl
  | true =>
      refine iff_of_false ?_ Bool.true_eq_false_eq_False
      intro same
      have moved := congrArg (fun map => (map (0, 1)).1) same
      cases moved

theorem Presents.denotes {ops : Operands} {args : GemmArgs} {turn : Bool}
    (presents : Presents ops args turn) :
    Denotes args ops (turnedCoordinates turn) := by
  cases turn with
  | false =>
      have same : kernelProblem ops = callerProblem args := presents
      refine ⟨?_, ?_, ?_⟩
      · intro i j
        exact and_congr
          (iff_of_eq (congrArg (fun problem => i < problem.m) same))
          (iff_of_eq (congrArg (fun problem => j < problem.n) same))
      · intro i j
        exact congrArg (fun problem => problem.result i j) same
      · intro _ i j p
        exact congrArg (fun problem => s(problem.left i p, problem.right p j))
          same
  | true =>
      have same : kernelProblem ops = (callerProblem args).transpose :=
        presents
      refine ⟨?_, ?_, ?_⟩
      · intro i j
        exact (and_congr
          (iff_of_eq (congrArg (fun problem => i < problem.m) same))
          (iff_of_eq (congrArg (fun problem => j < problem.n) same))).trans
          and_comm
      · intro i j
        exact congrArg (fun problem => problem.result i j) same
      · intro _ i j p
        exact (congrArg (fun problem => s(problem.left i p,
          problem.right p j)) same).trans Sym2.eq_swap

/--
Every tuple that the entry point passes on denotes the caller's problem, and
with a post-op its order is row major exactly when kernel columns are the
caller's.  An unpacked B of several columns has unit column stride.
-/
theorem operands_denote_problem {around : F32Surroundings}
    {args : F32Args Scalar} {metadata : Option DlpMetadata}
    {hasPostOps : Bool} {run : F32Run Scalar}
    (runs : aoclGemmF32f32f32of32 around args metadata hasPostOps =
      .ok run) :
    run.k = args.gemm.k.toNat ∧
    (∃ coordinates : Nat × Nat ≃ Nat × Nat,
      (coordinates = Equiv.refl _ ∨
        coordinates = Equiv.prodComm Nat Nat) ∧
      Denotes args.gemm run.ops coordinates ∧
      (around.postOps = .ok false →
        (run.ops.order = 'r' ∨ run.ops.order = 'R' ↔
          coordinates = Equiv.refl _))) ∧
    (run.ops.mtagB = .unpacked → 1 < run.ops.n → run.ops.csB = 1) := by
  rcases run_operands runs with ⟨depth, disabled, induces, postOps, operands⟩
  have rowMajor_iff : isRowMajor run.ops.order = true ↔
      run.ops.order = 'r' ∨ run.ops.order = 'R' := by
    simp [isRowMajor]
  refine ⟨depth, ?_, ?_⟩
  · rcases run_presents runs with ⟨turn, presents, order⟩
    refine ⟨turnedCoordinates turn, ?_, presents.denotes, ?_⟩
    · cases turn with
      | false => exact Or.inl rfl
      | true => exact Or.inr rfl
    · intro present
      rw [← rowMajor_iff, turnedCoordinates_refl_iff, order present,
        Bool.not_eq_true']
  · rw [operands]
    intro unpacked columns
    split at unpacked
    next vector =>
      rw [if_pos vector] at columns ⊢
      exact gemvOperands_unpacked disabled unpacked columns
    next several =>
      rw [if_neg several]
      exact gemmOperands_unpacked induces unpacked

end Entry

/-- A Zen5 machine that generates every kernel, for calls with post-ops. -/
def postOpMachine : F32Surroundings where
  processor := ⟨false, true, true, true, true, .zen5, false⟩
  avx2fma3 := true
  supThres := ⟨0, 0, 0⟩
  backend := ⟨true, false, .none, true⟩
  jitKernel := fun _ _ => true
  jitPackBKernel := fun _ _ => true
  rntm := ⟨4, -1, -1⟩
  postOps := .ok false

/-- A 4 by 8 product over 16, with the given order and transposition. -/
def squareArgs (order trans : Char) : F32Args Int :=
  ⟨⟨order, trans, trans, 4, 8, 16, false, 16, 'n', false, 16, 'n', false,
    8⟩, 1, 0⟩

/-- A doubly transposed column-major call keeps the caller's coordinates. -/
theorem operands_denote_problem_square :
    ∃ run : F32Run Int, aoclGemmF32f32f32of32 postOpMachine
        (squareArgs 'c' 't') none true = .ok run ∧
      (∃ coordinates : Nat × Nat ≃ Nat × Nat,
        Denotes (squareArgs 'c' 't').gemm run.ops coordinates ∧
          coordinates = Equiv.refl _) ∧
      run.ops.csB = 1 := by
  have holds := fun run => @operands_denote_problem Int _ _ postOpMachine
    (squareArgs 'c' 't') none true run
  refine ⟨_, rfl, ?_, ?_⟩
  · rcases (holds _ rfl).2.1 with ⟨coordinates, -, denotes, order⟩
    exact ⟨coordinates, denotes, (order rfl).mp (Or.inl rfl)⟩
  · exact (holds _ rfl).2.2 rfl (by decide)

/-- A row-major call keeps the upper case letter of its order. -/
theorem upper_case_order_kept :
    ∃ run : F32Run Int, aoclGemmF32f32f32of32 postOpMachine
        (squareArgs 'R' 'n') none true = .ok run ∧
      ¬ ∃ coordinates : Nat × Nat ≃ Nat × Nat,
        (coordinates = Equiv.refl _ ∨
          coordinates = Equiv.prodComm Nat Nat) ∧
        Denotes (squareArgs 'R' 'n').gemm run.ops coordinates ∧
        (run.ops.order = 'r' ↔ coordinates = Equiv.refl _) := by
  refine ⟨_, rfl, ?_⟩
  rintro ⟨coordinates, kept | turned, denotes, order⟩
  · exact absurd (order.mpr kept) (by decide)
  · subst turned
    exact absurd (denotes.written 0 1) (by decide)

end AoclDlp.Api.Normalisation
