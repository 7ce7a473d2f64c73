import AoclDlp.Api.F32Gemm
import AoclDlp.Quant.Agreement

/-!
# Kernels specialised on a zero beta

A kernel specialised on a zero beta must not run on a second K block.  The F32
frame steps by the K block that the kernel init left in the context, so the
comparison that chose the specialisation and the loop agree.  The sym-quant
frame steps by the table's K block; the comparison used the caller's.
-/

namespace AoclDlp.Quant.BetaSpecialisation

open AoclDlp.Api.F32Gemm
open AoclDlp.Api.GemmCheck
open AoclDlp.Config.BlockSize
open AoclDlp.Config.LocalContext
open AoclDlp.DecisionEngine.KernelInit
open AoclDlp.DecisionEngine.Scaling
open AoclDlp.Quant.Agreement
open AoclDlp.Quant.GroupSize
open AoclDlp.Quant.KernelInit
open AoclDlp.Quant.SymQuant

/--
The caller's K block does not cover a K that the table's leaves split: beta is
not zero, or the two blocks, aligned to the group, fit K only together.
-/
def KeepsKSplit (table stated : DlpGemmBlockSize) (beta : Int)
    (n k groupSize : Nat) : Prop :=
  beta = 0 → k ≤ symQuantKC stated.KC groupSize n k →
    k ≤ symQuantKC table.KC groupSize n k

/-- Over a wide B the K block does not depend on the width. -/
theorem symQuantKC_wide {n n' : Nat} (wide : n ≠ 1) (wide' : n' ≠ 1)
    (baseKC groupSize k : Nat) :
    symQuantKC baseKC groupSize n k = symQuantKC baseKC groupSize n' k := by
  unfold symQuantKC
  simp [wide, wide']

section F32

variable {Scalar : Type} [BEq Scalar] [OfNat Scalar 0] [OfNat Scalar 1]
    {around : F32Surroundings} {args : F32Args Scalar}
    {metadata : Option DlpMetadata} {hasPostOps : Bool}
    {run : F32Run Scalar}

omit [OfNat Scalar 1] in
/-- The K block of an accepted F32 call with several rows and columns. -/
theorem f32_settles (rows : 2 ≤ args.gemm.m) (columns : 2 ≤ args.gemm.n)
    (runs : aoclGemmF32f32f32of32 around args metadata hasPostOps =
      .ok run) :
    0 < run.k ∧ ∃ kcHint,
      run.lcntx.blksz.KC = (if run.k = 1 then 1 else kcHint) ∧
      run.kernel.betaScalingType =
        betaScalingType run.beta run.k kcHint := by
  unfold aoclGemmF32f32f32of32 at runs
  rcases bind_ok runs with ⟨_, -, runs⟩
  rcases bind_ok runs with ⟨_, checks, runs⟩
  rcases bind_ok runs with ⟨_, -, runs⟩
  rcases bind_ok runs with ⟨lcntx, -, runs⟩
  rcases bind_ok runs with ⟨_, -, runs⟩
  have several : (storedOperands args.gemm).m ≠ 1 := by
    change args.gemm.m.toNat ≠ 1
    omega
  have wide : (storedOperands args.gemm).n ≠ 1 := by
    change args.gemm.n.toNat ≠ 1
    omega
  dsimp only at runs
  rw [if_neg (not_or.mpr ⟨several, wide⟩)] at runs
  have dims := fun induces => gemmOperands_dims induces several wide
  rcases settleF32_ok (dims _).1 (dims _).2 runs with
    ⟨depth, beta, block, scaling⟩
  have positive := (sized_of_check checks).k_pos
  refine ⟨by omega, lcntx.blksz.KC, ?_, ?_⟩
  · rw [depth, block]
  · rw [depth, beta, scaling]

theorem f32_overwritesOnce (rows : 2 ≤ args.gemm.m)
    (columns : 2 ≤ args.gemm.n)
    (runs : aoclGemmF32f32f32of32 around args metadata hasPostOps =
      .ok run)
    (zero : run.kernel.betaScalingType = .zero) :
    run.betas = [run.beta] ∧ (run.beta == 0) = true := by
  rcases f32_settles rows columns runs with ⟨positive, kcHint, block, scaling⟩
  have within := (betaScalingType_zero_iff run.beta run.k kcHint).mp
    (scaling ▸ zero)
  have fits : run.k ≤ run.lcntx.blksz.KC := by
    rw [block]
    split_ifs with one
    · exact one.le
    · exact within.2
  unfold F32Run.betas
  split_ifs
  · exact ⟨rfl, within.1⟩
  · refine ⟨?_, within.1⟩
    rw [pcBetas, pcLoop_single positive fits]
    rfl

end F32

/-- The specialisation and the loop of an accepted sym-quant call with several
rows and columns. -/
theorem symQuant_overwritesOnce_iff {around : Surroundings}
    {cDownscale : DlpType} {args : SymQuantArgs} {metadata : QuantMetadata}
    {run : QuantRun} (rows : 2 ≤ args.gemm.m) (columns : 2 ≤ args.gemm.n)
    (runs : aoclGemmS8s8s32SymQuant around cDownscale args (some metadata) =
      .ok (some run)) :
    OverwritesOnce run.kernel.betaScalingType run.call.beta run.call.k
        (frameKC around.globalCntx run.call run.groupSize) ↔
      KeepsKSplit around.globalCntx.blksz
        (metadata.cntx.statedBlksz around.globalCntx.blksz) args.beta
        args.gemm.n.toNat args.gemm.k.toNat
        (groupSizeOf args.gemm.k metadata.bQuantOp).toNat := by
  rcases s8s8_of_some runs with
    ⟨aOp, bOp, lcntx, accepted, prepares, requested, -⟩
  have legal := requested.legal
  have init := initialised_of_some requested.inits
  have blocks := symQuantCntx_blksz legal prepares
  have size : (groupSizeOf args.gemm.k metadata.bQuantOp).toNat =
      run.groupSize := by
    rw [accepted.statesB, ← accepted.groupSize]
    exact Int.toNat_natCast run.groupSize
  have depth := frameCall_k args aOp bOp cDownscale
  have scalar : run.call.beta = args.beta := by
    rw [accepted.call, frameCall]
    split <;> rfl
  have wide : run.call.n ≠ 1 := by
    rw [accepted.call, frameCall]
    split
    · change args.gemm.m.toNat ≠ 1
      omega
    · change args.gemm.n.toNat ≠ 1
      omega
  rw [← accepted.call] at depth
  have table : 0 < around.globalCntx.blksz.KC :=
    lt_of_lt_of_le (by decide) around.tableBlksz.KC
  rw [init.returned.beta, frameKC_eq legal, blocks,
    overwritesOnce_iff _ _ (lt_of_lt_of_le legal.pos legal.le)
      (symQuantKC_pos legal.pos table)]
  unfold KeepsKSplit
  rw [size, ← depth, scalar,
    symQuantKC_wide (show args.gemm.n.toNat ≠ 1 by omega) wide,
    symQuantKC_wide (show args.gemm.n.toNat ≠ 1 by omega) wide, beq_iff_eq]

/--
A kernel specialised on a zero beta.  In the F32 entry it runs on one K block
only; in the sym-quant entry it does so exactly where the caller's K block
keeps the split of K.
-/
theorem betaZero_runs_once_iff {Scalar : Type} [BEq Scalar]
    [OfNat Scalar 0] [OfNat Scalar 1] (f32Around : F32Surroundings)
    (around : Surroundings) :
    (∀ (args : F32Args Scalar) (metadata : Option DlpMetadata)
      (hasPostOps : Bool) (run : F32Run Scalar), 2 ≤ args.gemm.m →
      2 ≤ args.gemm.n →
      aoclGemmF32f32f32of32 f32Around args metadata hasPostOps = .ok run →
      run.kernel.betaScalingType = .zero →
        run.betas = [run.beta] ∧ (run.beta == 0) = true) ∧
    (∀ (args : SymQuantArgs) (metadata : QuantMetadata) (run : QuantRun),
      2 ≤ args.gemm.m →
      2 ≤ args.gemm.n →
      aoclGemmS8s8s32SymQuant around .f32 args (some metadata) =
        .ok (some run) →
      (OverwritesOnce run.kernel.betaScalingType run.call.beta run.call.k
          (frameKC around.globalCntx run.call run.groupSize) ↔
        KeepsKSplit around.globalCntx.blksz
          (metadata.cntx.statedBlksz around.globalCntx.blksz) args.beta
          args.gemm.n.toNat args.gemm.k.toNat
          (groupSizeOf args.gemm.k metadata.bQuantOp).toNat)) := by
  constructor
  · intro args metadata hasPostOps run rows columns runs
    exact f32_overwritesOnce rows columns runs
  · intro args metadata run rows columns runs
    exact symQuant_overwritesOnce_iff rows columns runs

/-- An AVX512 machine whose F32 generators emit every kernel. -/
def zen5F32Around : F32Surroundings where
  processor := zen5Around.processor
  avx2fma3 := true
  supThres := ⟨0, 0, 0⟩
  backend := ⟨true, false, .none, true⟩
  jitKernel := fun _ _ => true
  jitPackBKernel := fun _ _ => true
  rntm := ⟨4, -1, -1⟩
  postOps := .ok true

/-- An F32 call of one K block, and a sym-quant call whose K the table splits
and the caller's block sizes leave split. -/
theorem betaZero_runs_once_iff_small :
    (∃ run : F32Run Int, aoclGemmF32f32f32of32 zen5F32Around
        ⟨(reorderedArgs 2 64 64).gemm, 1, 0⟩ none false = .ok run ∧
      run.kernel.betaScalingType = .zero ∧ run.betas = [0]) ∧
    (∃ run, aoclGemmS8s8s32SymQuant zen5Around .f32
        (reorderedArgs 2 64 4096)
        (some (singleGroup 2 64 ⟨0, 0, 1024, 0, 0⟩)) = .ok (some run) ∧
      OverwritesOnce run.kernel.betaScalingType run.call.beta run.call.k
        (frameKC zen5Around.globalCntx run.call run.groupSize)) := by
  refine ⟨⟨_, rfl, by decide, ?_⟩, ⟨_, rfl, ?_⟩⟩
  · exact ((betaZero_runs_once_iff zen5F32Around zen5Around).1
      ⟨(reorderedArgs 2 64 64).gemm, 1, 0⟩ none false _ (by decide)
      (by decide) rfl (by decide)).1
  · refine ((@betaZero_runs_once_iff Int _ _ _ zen5F32Around zen5Around).2
      (reorderedArgs 2 64 4096) (singleGroup 2 64 ⟨0, 0, 1024, 0, 0⟩) _
      (by decide) (by decide) rfl).mpr ?_
    intro _ covers
    exact absurd covers (by decide)

/-- Under a stated `KC` of 4096 the kernel is specialised for one K block of
4096, and the frame runs it on two of 2048. -/
theorem betaZero_runs_twice :
    ∃ run, aoclGemmS8s8s32SymQuant zen5Around .f32 (reorderedArgs 2 64 4096)
        (some (singleGroup 2 64 ⟨0, 0, 4096, 0, 0⟩)) = .ok (some run) ∧
      run.kernel.betaScalingType = .zero ∧
      pcBetas run.call.beta run.call.k
        (frameKC zen5Around.globalCntx run.call run.groupSize) = [0, 1] :=
  ⟨_, rfl, by decide, by decide⟩

end AoclDlp.Quant.BetaSpecialisation
