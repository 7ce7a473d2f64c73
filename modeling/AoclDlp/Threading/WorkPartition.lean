import AoclDlp.Threading.TaskRange
import Mathlib.Data.Fintype.EquivFin

/-!
# The partition of the output among the team

An OpenMP thread number is first permuted by the thread-number distribution,
then decomposed into a `jc` and an `ic` work id, and each work id owns a range
of columns or rows.  The GEMV drivers reuse the thread number itself as the
work id of their only loop.  In every case the composition assigns each output
index to exactly one thread of the team.
-/

namespace AoclDlp.Threading.WorkPartition

open AoclDlp.Threading.TaskRange

/-- `AOCL_DLP_TID_DISTR_TYPE`. -/
inductive TidDistrType where
  | default
  | stride2
  deriving DecidableEq, Repr

/-- `dlp_gemm_modify_tid_on_distr_type`. -/
def dlpGemmModifyTidOnDistrType
    (tid nThreads : Nat) (tidDistr : TidDistrType) : Nat :=
  if tidDistr = .stride2 then
    let modifFactor := 2
    let tidModifLimit := nThreads / modifFactor * modifFactor
    if tid < tidModifLimit then
      tid / modifFactor + tid % modifFactor * (nThreads / modifFactor)
    else tid
  else tid

/-- The thread record that the decorator fills for one OpenMP thread. -/
def decoratorThread
    (icWays jcWays : Nat) (tidDistr : TidDistrType) (threadNum : Nat) :
    DlpGemmThrinfo where
  nThreads := icWays * jcWays
  tid := dlpGemmModifyTidOnDistrType threadNum (icWays * jcWays) tidDistr
  icWays := icWays
  jcWays := jcWays

/-- The `jc` range of the GEMM driver. -/
def gemmJcRange (thread : DlpGemmThrinfo) (n NR : Nat) : Nat × Nat :=
  dlpThreadTaskRange (dlpGemmGenDlpTaskIds (some thread)).1 n NR false

/-- The `ic` range of the GEMM driver. -/
def gemmIcRange (thread : DlpGemmThrinfo) (m MR : Nat) : Nat × Nat :=
  dlpThreadTaskRange (dlpGemmGenDlpTaskIds (some thread)).2 m MR false

/--
The task id of a GEMV loop: an unsplit loop is widened to the whole team, and
the thread number is the work id.
-/
def gemvTaskId (thread : DlpGemmThrinfo) (task : DlpTaskId) : DlpTaskId :=
  { task with
    nWay := if task.nWay = 1 then thread.nThreads else task.nWay
    workId := thread.tid }

/-- Row block of the `n == 1` driver, which ignores the context's `MR`. -/
def gemvMR : Nat := 16

/-- The `ic` range of the GEMV driver for `n == 1`. -/
def gemvIcRange (thread : DlpGemmThrinfo) (m : Nat) : Nat × Nat :=
  dlpThreadTaskRange
    (gemvTaskId thread (dlpGemmGenDlpTaskIds (some thread)).2) m gemvMR false

/-- The `jc` range of the GEMV driver for `m == 1`. -/
def gemvJcRange (thread : DlpGemmThrinfo) (n NR : Nat) : Nat × Nat :=
  dlpThreadTaskRange
    (gemvTaskId thread (dlpGemmGenDlpTaskIds (some thread)).1) n NR false

/-- Membership in a half-open range returned by the task split. -/
def InRange (range : Nat × Nat) (index : Nat) : Prop :=
  range.1 ≤ index ∧ index < range.2

instance (range : Nat × Nat) (index : Nat) :
    Decidable (InRange range index) :=
  inferInstanceAs (Decidable (_ ∧ _))

/-! ## The thread-number distributions are permutations -/

theorem modifyTid_lt
    {tid nThreads : Nat} (tidDistr : TidDistrType)
    (bounded : tid < nThreads) :
    dlpGemmModifyTidOnDistrType tid nThreads tidDistr < nThreads := by
  cases tidDistr with
  | default => exact bounded
  | stride2 =>
      simp only [dlpGemmModifyTidOnDistrType, if_true]
      split
      · rcases Nat.mod_two_eq_zero_or_one tid with even | odd
        · rw [even]
          omega
        · rw [odd]
          omega
      · exact bounded

theorem modifyTid_injective
    {left right nThreads : Nat} (tidDistr : TidDistrType)
    (equal :
      dlpGemmModifyTidOnDistrType left nThreads tidDistr =
        dlpGemmModifyTidOnDistrType right nThreads tidDistr) :
    left = right := by
  cases tidDistr with
  | default => exact equal
  | stride2 =>
      simp only [dlpGemmModifyTidOnDistrType, if_true] at equal
      rcases Nat.mod_two_eq_zero_or_one left with leftPar | leftPar <;>
        rcases Nat.mod_two_eq_zero_or_one right with rightPar | rightPar <;>
        rw [leftPar, rightPar] at equal <;>
        split at equal <;> split at equal <;> omega

/-- Each team-local thread number comes from exactly one OpenMP thread. -/
theorem existsUnique_modifyTid
    {nThreads : Nat} (tidDistr : TidDistrType) {tid : Nat}
    (bounded : tid < nThreads) :
    ∃! threadNum, threadNum < nThreads ∧
      dlpGemmModifyTidOnDistrType threadNum nThreads tidDistr = tid := by
  have injective : Function.Injective fun threadNum : Fin nThreads =>
      (⟨dlpGemmModifyTidOnDistrType threadNum nThreads tidDistr,
        modifyTid_lt tidDistr threadNum.isLt⟩ : Fin nThreads) := by
    intro left right equal
    exact Fin.ext (modifyTid_injective tidDistr (congrArg Fin.val equal))
  rcases Finite.surjective_of_injective injective ⟨tid, bounded⟩ with
    ⟨threadNum, image⟩
  have value := congrArg Fin.val image
  refine ⟨threadNum, ⟨threadNum.isLt, value⟩, ?_⟩
  rintro other ⟨_, otherImage⟩
  exact modifyTid_injective tidDistr (otherImage.trans value.symm)

/-- Transport unique ownership from team-local to OpenMP thread numbers. -/
theorem existsUnique_threadNum
    {nThreads : Nat} (tidDistr : TidDistrType) (Owns : Nat → Prop)
    (unique : ∃! tid, tid < nThreads ∧ Owns tid) :
    ∃! threadNum, threadNum < nThreads ∧
      Owns (dlpGemmModifyTidOnDistrType threadNum nThreads tidDistr) := by
  rcases unique with ⟨tid, ⟨bounded, owns⟩, only⟩
  rcases existsUnique_modifyTid tidDistr bounded with
    ⟨threadNum, ⟨inTeam, image⟩, onlyThread⟩
  refine ⟨threadNum, ⟨inTeam, image.symm ▸ owns⟩, ?_⟩
  rintro other ⟨otherInTeam, otherOwns⟩
  apply onlyThread
  exact ⟨otherInTeam,
    only _ ⟨modifyTid_lt tidDistr otherInTeam, otherOwns⟩⟩

/-! ## Ownership in one split loop -/

theorem inRange_taskRange_iff
    {ocommId nWay workId n bf index : Nat} (positive : 0 < nWay)
    (below : index < n) :
    InRange (dlpThreadTaskRange ⟨ocommId, nWay, workId⟩ n bf false) index ↔
      workId < nWay ∧
        (taskCuts nWay n bf positive false).Owns workId index := by
  by_cases valid : workId < nWay
  · rw [dlpThreadTaskRange_eq_cuts ⟨ocommId, nWay, workId⟩ n bf false valid]
    exact (and_iff_right valid).symm
  · rw [dlpThreadTaskRange_retired _ n bf false (Nat.le_of_not_lt valid)]
    constructor
    · intro inside
      exact absurd below (Nat.not_lt.mpr inside.1)
    · intro owned
      exact absurd owned.1 valid

/-- The decomposition of a thread number into its two work ids. -/
theorem existsUnique_tid
    {icWays jcWays : Nat} {OwnsJc OwnsIc : Nat → Prop}
    (jcUnique : ∃! work, work < jcWays ∧ OwnsJc work)
    (icUnique : ∃! work, work < icWays ∧ OwnsIc work) :
    ∃! tid, tid < icWays * jcWays ∧
      OwnsIc (tid % icWays) ∧ OwnsJc (tid / icWays) := by
  rcases jcUnique with ⟨jc, ⟨jcBound, jcOwns⟩, jcOnly⟩
  rcases icUnique with ⟨ic, ⟨icBound, icOwns⟩, icOnly⟩
  have positive : 0 < icWays := Nat.zero_lt_of_lt icBound
  refine ⟨ic + icWays * jc, ⟨?_, ?_, ?_⟩, ?_⟩
  · calc
      ic + icWays * jc < icWays + icWays * jc :=
        Nat.add_lt_add_right icBound _
      _ = icWays * (jc + 1) := by ring
      _ ≤ icWays * jcWays := Nat.mul_le_mul_left _ jcBound
  · rwa [Nat.add_mul_mod_self_left, Nat.mod_eq_of_lt icBound]
  · rwa [Nat.add_mul_div_left _ _ positive, Nat.div_eq_of_lt icBound,
      Nat.zero_add]
  · rintro other ⟨bounded, otherIc, otherJc⟩
    have row : other % icWays = ic :=
      icOnly _ ⟨Nat.mod_lt _ positive, otherIc⟩
    have column : other / icWays = jc :=
      jcOnly _ ⟨Nat.div_lt_of_lt_mul bounded, otherJc⟩
    rw [← row, ← column, Nat.mod_add_div]

/-- Each index of a split loop belongs to exactly one work id. -/
theorem existsUnique_workId
    {nWay n index : Nat} (bf : Nat) (ocommId : Nat → Nat)
    (positive : 0 < nWay) (below : index < n) :
    ∃! workId, workId < nWay ∧
      InRange (dlpThreadTaskRange ⟨ocommId workId, nWay, workId⟩ n bf false)
        index := by
  rcases (taskCuts nWay n bf positive false).existsUnique_owns below with
    ⟨workId, owned, only⟩
  refine ⟨workId, ⟨owned.1, (inRange_taskRange_iff positive below).mpr owned⟩,
    ?_⟩
  rintro other ⟨_, inside⟩
  exact only other ((inRange_taskRange_iff positive below).mp inside)

/-- The GEMV reroute: `pool` thread numbers over `nWay` slices. -/
theorem existsUnique_poolId
    {pool nWay n index : Nat} (bf : Nat) (ocommId : Nat → Nat)
    (positive : 0 < nWay) (fits : nWay ≤ pool) (below : index < n) :
    ∃! tid, tid < pool ∧
      InRange (dlpThreadTaskRange ⟨ocommId tid, nWay, tid⟩ n bf false)
        index := by
  rcases existsUnique_workId bf ocommId positive below with
    ⟨tid, ⟨bounded, inside⟩, only⟩
  refine ⟨tid, ⟨bounded.trans_le fits, inside⟩, ?_⟩
  rintro other ⟨_, otherInside⟩
  exact only other
    ⟨((inRange_taskRange_iff positive below).mp otherInside).1, otherInside⟩

/-! ## The output partition -/

theorem existsUnique_gemm_thread
    {icWays jcWays : Nat} (icPositive : 0 < icWays)
    (jcPositive : 0 < jcWays) (tidDistr : TidDistrType)
    {m n MR NR i j : Nat} (row : i < m) (column : j < n) :
    ∃! threadNum, threadNum < icWays * jcWays ∧
      InRange (gemmIcRange
        (decoratorThread icWays jcWays tidDistr threadNum) m MR) i ∧
      InRange (gemmJcRange
        (decoratorThread icWays jcWays tidDistr threadNum) n NR) j := by
  apply existsUnique_threadNum tidDistr (fun tid =>
    InRange (gemmIcRange ⟨icWays * jcWays, tid, icWays, jcWays⟩ m MR) i ∧
      InRange (gemmJcRange ⟨icWays * jcWays, tid, icWays, jcWays⟩ n NR) j)
  have jcUnique := existsUnique_workId NR (fun work => work) jcPositive column
  have icUnique := existsUnique_workId MR (fun work => work) icPositive row
  exact existsUnique_tid jcUnique icUnique

theorem gemvTaskId_nWay_bounds
    {icWays jcWays ways : Nat} (positive : 0 < ways)
    (fits : ways ≤ icWays * jcWays) :
    0 < (if ways = 1 then icWays * jcWays else ways) ∧
      (if ways = 1 then icWays * jcWays else ways) ≤ icWays * jcWays := by
  split
  · exact ⟨positive.trans_le fits, le_rfl⟩
  · exact ⟨positive, fits⟩

theorem existsUnique_gemvIc_thread
    {icWays jcWays : Nat} (icPositive : 0 < icWays)
    (jcPositive : 0 < jcWays) (tidDistr : TidDistrType)
    {m i : Nat} (row : i < m) :
    ∃! threadNum, threadNum < icWays * jcWays ∧
      InRange (gemvIcRange
        (decoratorThread icWays jcWays tidDistr threadNum) m) i := by
  have bounds := gemvTaskId_nWay_bounds icPositive
    (Nat.le_mul_of_pos_right icWays jcPositive)
  apply existsUnique_threadNum tidDistr (fun tid =>
    InRange (gemvIcRange ⟨icWays * jcWays, tid, icWays, jcWays⟩ m) i)
  exact existsUnique_poolId gemvMR (fun tid => tid % icWays)
    bounds.1 bounds.2 row

theorem existsUnique_gemvJc_thread
    {icWays jcWays : Nat} (icPositive : 0 < icWays)
    (jcPositive : 0 < jcWays) (tidDistr : TidDistrType)
    {n NR j : Nat} (column : j < n) :
    ∃! threadNum, threadNum < icWays * jcWays ∧
      InRange (gemvJcRange
        (decoratorThread icWays jcWays tidDistr threadNum) n NR) j := by
  have bounds := gemvTaskId_nWay_bounds jcPositive
    (Nat.le_mul_of_pos_left jcWays icPositive)
  apply existsUnique_threadNum tidDistr (fun tid =>
    InRange (gemvJcRange ⟨icWays * jcWays, tid, icWays, jcWays⟩ n NR) j)
  exact existsUnique_poolId NR (fun tid => tid) bounds.1 bounds.2 column

/--
Every output element belongs to exactly one thread of the team: in the GEMM
loops by its row and column ranges, and in each GEMV driver by its only range.
-/
theorem output_partition
    (m n MR NR : Nat) {icWays jcWays : Nat}
    (icPositive : 1 ≤ icWays) (jcPositive : 1 ≤ jcWays)
    (tidDistr : TidDistrType) :
    (∀ i j, i < m → j < n →
      ∃! threadNum, threadNum < icWays * jcWays ∧
        InRange (gemmIcRange
          (decoratorThread icWays jcWays tidDistr threadNum) m MR) i ∧
        InRange (gemmJcRange
          (decoratorThread icWays jcWays tidDistr threadNum) n NR) j) ∧
    (∀ i, i < m →
      ∃! threadNum, threadNum < icWays * jcWays ∧
        InRange (gemvIcRange
          (decoratorThread icWays jcWays tidDistr threadNum) m) i) ∧
    (∀ j, j < n →
      ∃! threadNum, threadNum < icWays * jcWays ∧
        InRange (gemvJcRange
          (decoratorThread icWays jcWays tidDistr threadNum) n NR) j) := by
  refine ⟨?_, ?_, ?_⟩
  · intro i j row column
    exact existsUnique_gemm_thread icPositive jcPositive tidDistr row column
  · intro i row
    exact existsUnique_gemvIc_thread icPositive jcPositive tidDistr row
  · intro j column
    exact existsUnique_gemvJc_thread icPositive jcPositive tidDistr column

/-- The last element of a 37 by 100 output under an odd strided team. -/
theorem output_partition_odd_team :
    ∃! threadNum, threadNum < 3 * 1 ∧
      InRange (gemmIcRange (decoratorThread 3 1 .stride2 threadNum) 37 6)
        36 ∧
      InRange (gemmJcRange (decoratorThread 3 1 .stride2 threadNum) 100 64)
        99 :=
  (output_partition 37 100 6 64 (by decide) (by decide) .stride2).1 36 99
    (by decide) (by decide)

end AoclDlp.Threading.WorkPartition
