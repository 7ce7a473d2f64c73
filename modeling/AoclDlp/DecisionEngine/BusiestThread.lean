import AoclDlp.DecisionEngine.ShapeModel
import AoclDlp.Foundations.LeastCost
import AoclDlp.Foundations.Rounding
import AoclDlp.Threading.WorkPartition
import Mathlib.Order.Interval.Finset.Nat
import Mathlib.Order.Lattice.Nat

/-!
# The cost model measures the busiest thread

The cost of a tile under a split is a closed form in the block counts of the
output.  The frame executes the split by handing every thread a range of whole
blocks, with the leftover at the end of the last one.  This module proves that
the closed form is the padded area on the busiest thread of the team, and that
the search keeps the earliest admissible tile for which that area is least.

Extents, tiles and counts are naturals here and signed 64-bit in the source.
Where they are below `2 ^ 30`, padded extents are below `2 ^ 31` and areas
below `2 ^ 62`, and both agree.
-/

namespace AoclDlp.DecisionEngine.BusiestThread

open AoclDlp.DecisionEngine.ShapeModel
open AoclDlp.DecisionEngine.ThreadPartition
open AoclDlp.Foundations.LeastCost
open AoclDlp.Foundations.Rounding
open AoclDlp.Threading.Factorization
open AoclDlp.Threading.TaskRange
open AoclDlp.Threading.WorkPartition

/-! ## The padded share of a thread -/

/-- The padded extent of a range in whole microkernel blocks. -/
def paddedShare (range : Nat × Nat) (block : Nat) : Nat :=
  roundUp (range.2 - range.1) block

/-- The padded rows of one thread of a team. -/
def threadRows (icWays jcWays : Nat) (tidDistr : TidDistrType)
    (m mr threadNum : Nat) : Nat :=
  paddedShare
    (gemmIcRange (decoratorThread icWays jcWays tidDistr threadNum) m mr) mr

/-- The padded columns of one thread of a team. -/
def threadColumns (icWays jcWays : Nat) (tidDistr : TidDistrType)
    (n nr threadNum : Nat) : Nat :=
  paddedShare
    (gemmJcRange (decoratorThread icWays jcWays tidDistr threadNum) n nr) nr

theorem ceilDiv_eq {block : Nat} (positive : 0 < block) (value : Nat) :
    (value + block - 1) / block =
      value / block + if value % block = 0 then 0 else 1 := by
  have split := Nat.div_add_mod value block
  have small := Nat.mod_lt value positive
  by_cases whole : value % block = 0
  · rw [if_pos whole]
    apply Nat.div_eq_of_lt_le
    · rw [Nat.add_zero, Nat.mul_comm]
      omega
    · rw [Nat.add_zero, Nat.mul_comm, Nat.mul_succ]
      omega
  · rw [if_neg whole]
    apply Nat.div_eq_of_lt_le
    · rw [Nat.mul_comm, Nat.mul_succ]
      omega
    · rw [Nat.mul_comm, Nat.mul_succ, Nat.mul_succ]
      omega

/-- The blocks that the closed form books on the busiest work id. -/
theorem sharedBlocks_eq {block nWay : Nat} (positive : 0 < block)
    (ways : 0 < nWay) (extent : Nat) :
    ((extent + block - 1) / block + nWay - 1) / nWay =
      extent / block / nWay +
        if extent / block % nWay = 0 ∧ extent % block = 0 then 0 else 1 := by
  rw [ceilDiv_eq positive]
  by_cases whole : extent % block = 0
  · simp only [whole, if_true, Nat.add_zero, and_true]
    exact ceilDiv_eq ways _
  · simp only [whole, if_false, and_false]
    rw [Nat.add_assoc, Nat.add_comm 1 nWay, ← Nat.add_assoc,
      Nat.add_sub_cancel, Nat.add_div_right _ ways]

/-- The padded share of a work id, in whole blocks. -/
theorem paddedShare_eq {nWay way block : Nat} (valid : way < nWay)
    (positive : 0 < block) (extent : Nat) :
    paddedShare (highEdgeCut nWay extent block way,
        highEdgeCut nWay extent block (way + 1)) block =
      (extent / block / nWay +
        if way < extent / block % nWay ∨
            (way + 1 = nWay ∧ extent % block ≠ 0) then 1 else 0) * block := by
  have whole := blocks_mul_add_left nWay extent block
  have remainder : extent / block % nWay < nWay :=
    Nat.mod_lt _ (Nat.zero_lt_of_lt valid)
  unfold paddedShare highEdgeCut
  rw [if_pos valid]
  generalize extent / block / nWay = q at *
  generalize extent / block % nWay = r at *
  by_cases inner : way + 1 < nWay
  · rw [if_pos inner]
    have apart : way + 1 ≠ nWay := by omega
    by_cases low : way < r
    · rw [if_pos (Or.inl low), min_eq_left low.le,
        min_eq_left (show way + 1 ≤ r from low)]
      have width : ((way + 1) * q + (way + 1)) * block -
          (way * q + way) * block = (q + 1) * block := by
        rw [← Nat.sub_mul]
        congr 1
        rw [Nat.succ_mul]
        omega
      rw [width]
      exact roundUp_of_dvd positive (Nat.dvd_mul_left block _)
    · rw [if_neg (by omega), min_eq_right (by omega),
        min_eq_right (by omega)]
      have width : ((way + 1) * q + r) * block - (way * q + r) * block =
          (q + 0) * block := by
        rw [← Nat.sub_mul]
        congr 1
        rw [Nat.succ_mul]
        omega
      rw [width]
      exact roundUp_of_dvd positive (Nat.dvd_mul_left block _)
  · have last : way + 1 = nWay := by omega
    rw [if_neg inner, min_eq_right (by omega)]
    have width : extent - (way * q + r) * block =
        q * block + extent % block := by
      rw [← last] at whole
      have spread : ((way + 1) * q + r) * block =
          (way * q + r) * block + q * block := by ring
      omega
    rw [width, roundUp_add_of_dvd positive (Nat.dvd_mul_left block q)]
    have high : ¬ way < r := by omega
    by_cases fits : extent % block = 0
    · rw [if_neg (by omega), fits, Nat.add_zero,
        roundUp_of_dvd positive (Nat.dvd_zero block), Nat.add_zero]
    · rw [if_pos (Or.inr ⟨last, fits⟩), roundUp_eq_add_gap positive,
        Nat.mod_mod, if_pos fits, Nat.succ_mul]
      have small := Nat.mod_lt extent positive
      omega

/-- The extent that the closed form books on the busiest work id. -/
def bookedShare (nWay extent block : Nat) : Nat :=
  ((extent + block - 1) / block + nWay - 1) / nWay * block

theorem paddedShare_le {nWay way block : Nat} (valid : way < nWay)
    (positive : 0 < block) (extent : Nat) :
    paddedShare (highEdgeCut nWay extent block way,
        highEdgeCut nWay extent block (way + 1)) block ≤
      bookedShare nWay extent block := by
  rw [paddedShare_eq valid positive, bookedShare,
    sharedBlocks_eq positive (Nat.zero_lt_of_lt valid)]
  apply Nat.mul_le_mul_right
  split_ifs <;> omega

/-- The first work id carries an extra block, or the last one the leftover. -/
theorem exists_bookedShare {nWay block : Nat} (ways : 0 < nWay)
    (positive : 0 < block) (extent : Nat) :
    ∃ way < nWay, paddedShare (highEdgeCut nWay extent block way,
        highEdgeCut nWay extent block (way + 1)) block =
      bookedShare nWay extent block := by
  by_cases even : extent / block % nWay = 0
  · refine ⟨nWay - 1, by omega, ?_⟩
    rw [paddedShare_eq (by omega) positive, bookedShare,
      sharedBlocks_eq positive ways]
    congr 2
    split_ifs <;> omega
  · refine ⟨0, ways, ?_⟩
    rw [paddedShare_eq ways positive, bookedShare,
      sharedBlocks_eq positive ways]
    congr 2
    split_ifs <;> omega

section Team

variable {icWays jcWays : Nat} (tidDistr : TidDistrType)

theorem threadRows_eq (m mr : Nat) {threadNum : Nat} (ways : 0 < icWays) :
    let way := dlpGemmModifyTidOnDistrType threadNum (icWays * jcWays)
      tidDistr % icWays
    threadRows icWays jcWays tidDistr m mr threadNum =
      paddedShare (highEdgeCut icWays m mr way,
        highEdgeCut icWays m mr (way + 1)) mr :=
  congrArg (paddedShare · mr)
    (dlpThreadTaskRange_highEdge _ m mr (Nat.mod_lt _ ways))

theorem threadColumns_eq (n nr : Nat) {threadNum : Nat}
    (member : threadNum < icWays * jcWays) :
    let way := dlpGemmModifyTidOnDistrType threadNum (icWays * jcWays)
      tidDistr / icWays
    threadColumns icWays jcWays tidDistr n nr threadNum =
      paddedShare (highEdgeCut jcWays n nr way,
        highEdgeCut jcWays n nr (way + 1)) nr :=
  congrArg (paddedShare · nr)
    (dlpThreadTaskRange_highEdge _ n nr
      (Nat.div_lt_of_lt_mul (modifyTid_lt tidDistr member)))

/-- No thread of the team has more than the booked rows and columns. -/
theorem threadShare_le {m n mr nr threadNum : Nat} (rows : 0 < mr)
    (columns : 0 < nr) (member : threadNum < icWays * jcWays) :
    threadRows icWays jcWays tidDistr m mr threadNum ≤
        bookedShare icWays m mr ∧
      threadColumns icWays jcWays tidDistr n nr threadNum ≤
        bookedShare jcWays n nr := by
  have ways : 0 < icWays :=
    Nat.pos_of_mul_pos_right (Nat.zero_lt_of_lt member)
  rw [threadRows_eq tidDistr m mr ways, threadColumns_eq tidDistr n nr member]
  exact ⟨paddedShare_le (Nat.mod_lt _ ways) rows m,
    paddedShare_le (Nat.div_lt_of_lt_mul (modifyTid_lt tidDistr member))
      columns n⟩

/-- One thread of the team has the booked rows and the booked columns. -/
theorem exists_busiest (m n : Nat) {mr nr : Nat} (rows : 0 < mr)
    (columns : 0 < nr) (icPos : 0 < icWays) (jcPos : 0 < jcWays) :
    ∃ threadNum < icWays * jcWays,
      threadRows icWays jcWays tidDistr m mr threadNum =
          bookedShare icWays m mr ∧
        threadColumns icWays jcWays tidDistr n nr threadNum =
          bookedShare jcWays n nr := by
  rcases exists_bookedShare icPos rows m with ⟨ic, icValid, rowShare⟩
  rcases exists_bookedShare jcPos columns n with ⟨jc, jcValid, columnShare⟩
  have bounded : ic + icWays * jc < icWays * jcWays :=
    calc
      ic + icWays * jc < icWays + icWays * jc :=
        Nat.add_lt_add_right icValid _
      _ = icWays * (jc + 1) := by ring
      _ ≤ icWays * jcWays := Nat.mul_le_mul_left icWays jcValid
  rcases existsUnique_modifyTid tidDistr bounded with
    ⟨threadNum, ⟨member, image⟩, -⟩
  refine ⟨threadNum, member, ?_, ?_⟩
  · rw [threadRows_eq tidDistr m mr icPos, image, Nat.add_mul_mod_self_left,
      Nat.mod_eq_of_lt icValid]
    exact rowShare
  · rw [threadColumns_eq tidDistr n nr member, image,
      Nat.add_mul_div_left _ _ icPos, Nat.div_eq_of_lt icValid, Nat.zero_add]
    exact columnShare

end Team

/-- The largest value that a team's threads reach. -/
def overTeam (icWays jcWays : Nat) (share : Nat → Nat) : Nat :=
  (Finset.range (icWays * jcWays)).sup share

theorem overTeam_eq {icWays jcWays most threadNum : Nat}
    {share : Nat → Nat}
    (bounded : ∀ other < icWays * jcWays, share other ≤ most)
    (member : threadNum < icWays * jcWays)
    (attained : share threadNum = most) :
    overTeam icWays jcWays share = most := by
  apply le_antisymm
  · exact Finset.sup_le fun other inside =>
      bounded other (Finset.mem_range.mp inside)
  · rw [← attained]
    exact Finset.le_sup (Finset.mem_range.mpr member)

/-- The closed form of the cost is the padded area on the busiest thread. -/
theorem costEval_eq (tidDistr : TidDistrType)
    {input : GemmShapeModelInput} {shape : GemmShapeModelResult}
    (rows : 0 < shape.mr) (columns : 0 < shape.nr)
    (icPos : 0 < shape.icWays) (jcPos : 0 < shape.jcWays) :
    let ic := shape.icWays.toNat
    let jc := shape.jcWays.toNat
    let m := input.m.toNat
    input.costEval shape =
        overTeam ic jc (threadRows ic jc tidDistr m shape.mr) *
          overTeam ic jc (threadColumns ic jc tidDistr input.n shape.nr) ∧
      input.costEval shape =
        overTeam ic jc fun thread =>
          threadRows ic jc tidDistr m shape.mr thread *
            threadColumns ic jc tidDistr input.n shape.nr thread := by
  intro ic jc m
  have icNat : 0 < ic := by omega
  have jcNat : 0 < jc := by omega
  rcases exists_busiest tidDistr m input.n rows columns icNat jcNat with
    ⟨thread, member, most, widest⟩
  have shares {other : Nat} (inside : other < ic * jc) :=
    @threadShare_le _ _ tidDistr m input.n _ _ _ rows columns inside
  constructor
  · rw [overTeam_eq (fun _ inside => (shares inside).1) member most,
      overTeam_eq (fun _ inside => (shares inside).2) member widest]
    rfl
  · rw [overTeam_eq
      (fun _ inside => Nat.mul_le_mul (shares inside).1 (shares inside).2)
      member (by rw [most, widest])]
    rfl

/-! ## The split of a resolved tile -/

/-- The int8 hook is the tail of the int8 C factorizer. -/
theorem resolveWays_int8 (mr nr m n : Nat) (nThreads icWays jcWays : Int) :
    resolveWays int8AdjustWays mr nr m n nThreads icWays jcWays =
      dlpGemmS32o32GetThreading m n ⟨nThreads, jcWays, icWays⟩ mr nr := by
  unfold resolveWays dlpGemmS32o32GetThreading getThreadingWith
  simp only [int8AdjustWays, adjustIfRoom, seedWays, partition2x2_agrees,
    adjustIcJcWays_agrees]

theorem resolveWays_exact (backend : GemmBackend) {mr nr m n : Nat}
    (rows : 1 ≤ m) (columns : 1 ≤ n) (rowBlock : 1 ≤ mr)
    (columnBlock : 1 ≤ nr) (nThreads icWays jcWays : Int) :
    (resolveWays backend.adjustWays mr nr m n nThreads icWays
      jcWays).Exact := by
  cases backend with
  | bf16 =>
      rw [GemmBackend.adjustWays, resolveWays_agrees]
      exact getThreading_exact _ rows columns rowBlock columnBlock
  | u8s8 =>
      rw [GemmBackend.adjustWays, resolveWays_int8]
      exact s32o32GetThreading_exact _ rows columns rowBlock columnBlock
  | s8 =>
      rw [GemmBackend.adjustWays, resolveWays_int8]
      exact s32o32GetThreading_exact _ rows columns rowBlock columnBlock

/-- A shape with positive ways that multiply to its thread count. -/
structure ExactSplit (shape : GemmShapeModelResult) : Prop where
  icPos : 0 < shape.icWays
  jcPos : 0 < shape.jcWays
  product : shape.icWays * shape.jcWays = shape.numThreads

theorem resolveShape_exact (backend : GemmBackend)
    {input : GemmShapeModelInput} {dims : KernelDims} (rows : 1 ≤ input.m)
    (columns : 1 ≤ input.n) (rowBlock : 0 < dims.mr)
    (columnBlock : 0 < dims.nr) :
    ExactSplit (input.resolveShape backend.adjustWays dims) := by
  have valid := resolveWays_exact backend
    (show 1 ≤ input.m.toNat by omega) columns rowBlock columnBlock
    input.numThreads input.icWays input.jcWays
  have product := valid.product
  have positive := valid.positive
  rw [← product] at positive
  exact ⟨Int.natCast_pos.mpr (Nat.pos_of_mul_pos_right positive),
    Int.natCast_pos.mpr (Nat.pos_of_mul_pos_left positive),
    (Int.natCast_mul _ _).symm.trans (congrArg Int.ofNat product)⟩

/-! ## The search -/

/-- What a tile costs under the split that it would run under. -/
def tileCost (backend : GemmBackend) (input : GemmShapeModelInput)
    (dims : KernelDims) : Nat :=
  input.costEval (input.resolveShape backend.adjustWays dims)

/-- What the loop of the sweep knows of the candidates it has seen. -/
def Incumbent (backend : GemmBackend) (input : GemmShapeModelInput)
    (seen : List KernelDims) : Option (GemmShapeModelResult × Nat) → Prop
  | none => ∀ dims ∈ seen, ¬ input.isCandidateAdmissible dims = true
  | some (shape, cost) => ∃ dims,
      EarliestLeast (input.isCandidateAdmissible · = true)
        (tileCost backend input) seen dims ∧
      shape = input.resolveShape backend.adjustWays dims ∧
      cost = tileCost backend input dims

theorem Incumbent.consider {backend : GemmBackend}
    {input : GemmShapeModelInput} {seen : List KernelDims}
    {best : Option (GemmShapeModelResult × Nat)} (dims : KernelDims)
    (incumbent : Incumbent backend input seen best) :
    Incumbent backend input (seen ++ [dims])
      (input.considerCandidate backend.adjustWays best dims) := by
  unfold GemmShapeModelInput.considerCandidate
  by_cases admitted : input.isCandidateAdmissible dims = true
  · rw [if_pos admitted]
    cases best with
    | none => exact ⟨dims, .first incumbent admitted, rfl, rfl⟩
    | some best =>
        rcases incumbent with ⟨current, least, shape, cost⟩
        dsimp only
        split_ifs with cheaper
        · rw [cost] at cheaper
          exact ⟨dims, least.displace admitted cheaper, rfl, rfl⟩
        · rw [cost] at cheaper
          exact ⟨current, least.keep fun _ => Nat.le_of_not_lt cheaper,
            shape, cost⟩
  · rw [if_neg admitted]
    cases best with
    | none =>
        intro other member
        rcases List.mem_append.mp member with earlier | last
        · exact incumbent other earlier
        · rw [List.mem_singleton.mp last]
          exact admitted
    | some best =>
        rcases incumbent with ⟨current, least, kept⟩
        exact ⟨current, least.keep fun admits => absurd admits admitted,
          kept⟩

theorem incumbent_of_sweep (backend : GemmBackend)
    (input : GemmShapeModelInput) (candidates : List KernelDims) :
    Incumbent backend input candidates
      (candidates.foldl (input.considerCandidate backend.adjustWays)
        none) := by
  induction candidates using List.reverseRecOn with
  | nil => exact fun _ member => absurd member List.not_mem_nil
  | append_singleton seen dims ih =>
      rw [List.foldl_append]
      exact ih.consider dims

/-- The sweep resolves its earliest cheapest tile, or the context's tile when
it admits none. -/
theorem sweepCandidates_spec (backend : GemmBackend)
    (input : GemmShapeModelInput) (candidates : List KernelDims) :
    (∃ dims,
      EarliestLeast (input.isCandidateAdmissible · = true)
        (tileCost backend input) candidates dims ∧
      input.sweepCandidates backend.adjustWays candidates =
        input.resolveShape backend.adjustWays dims) ∨
    ((∀ dims ∈ candidates, ¬ input.isCandidateAdmissible dims = true) ∧
      input.sweepCandidates backend.adjustWays candidates =
        input.resolveShape backend.adjustWays
          input.baselineKernelDims) := by
  have incumbent := incumbent_of_sweep backend input candidates
  unfold GemmShapeModelInput.sweepCandidates
  generalize candidates.foldl
    (input.considerCandidate backend.adjustWays) none = best at incumbent ⊢
  cases best with
  | none => exact Or.inr ⟨incumbent, rfl⟩
  | some best =>
      rcases incumbent with ⟨dims, least, shape, -⟩
      exact Or.inl ⟨dims, least, shape⟩

/-- An admissible tile respects every frozen dimension. -/
theorem frozen_of_admissible {input : GemmShapeModelInput}
    {dims : KernelDims}
    (admitted : input.isCandidateAdmissible dims = true) :
    (input.frozen.MR = true → dims.mr = input.mr) ∧
      (input.frozen.NR = true → dims.nr = input.nr) := by
  simp only [GemmShapeModelInput.isCandidateAdmissible,
    GemmShapeModelInput.isMRFixedByCaller,
    GemmShapeModelInput.isNRFixedByCaller] at admitted
  constructor
  · intro frozen
    by_contra differs
    simp [frozen, differs] at admitted
  · intro frozen
    by_contra differs
    simp [frozen, differs] at admitted

/-- A 100 by 1000 output on a prime pool, with `NR` frozen at 48. -/
def frozenInput : GemmShapeModelInput :=
  ⟨100, 1000, 64, 6, 48, ⟨false, false, false, false, true⟩, 13, 0, 0, true⟩

end AoclDlp.DecisionEngine.BusiestThread
