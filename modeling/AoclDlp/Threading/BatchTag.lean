import AoclDlp.Config.BlockSize
import AoclDlp.Foundations.Transition
import AoclDlp.Threading.Factorization
import AoclDlp.Threading.TaskRange

/-!
# The memory tag of a batch of mixed-precision products

`aocl_batch_gemm_bf16s4f32of32` passes the address of one scalar tag to the
batch decorator.  The decorator picks a tag before the parallel region; inside
it every thread stores the pick at the index of its product and hands the
driver what it reads back at index zero.

The threads are programs over the shared tags, one step for each access, and
a run is any interleaving of the delivered team.
-/

namespace AoclDlp.Threading.BatchTag

open AoclDlp.Config.BlockSize
open AoclDlp.Foundations.Transition
open AoclDlp.Threading.Factorization
open AoclDlp.Threading.TaskRange

/-- `dlp_param_map_char_to_lpmtag`. -/
def dlpParamMapCharToLpmtag (mtag : Char) : MemoryTag :=
  if mtag = 'n' ∨ mtag = 'N' then .unpacked
  else if mtag = 'p' ∨ mtag = 'P' then .pack
  else if mtag = 'r' ∨ mtag = 'R' then .reordered
  else .unpacked

/-- `dlp_mtag_b_pick`. -/
def dlpMtagBPick (m n k icWays jcWays MC : Nat) (hasJitOnlyOp : Bool) :
    MemoryTag :=
  let mIc := m / icWays
  let nJc := n / jcWays
  let mtag :=
    if mIc < MC then MemoryTag.unpacked
    else
      let mIcPanels := 4
      let nJcMin := 1024
      let nJcMaxMul := 10
      let kShallow := 8
      if mIc ≤ mIcPanels * MC ∧ nJc ≥ nJcMin ∧ nJc ≤ nJcMaxMul * nJcMin ∧
          k ≤ kShallow then .unpacked
      else .packKc
  if mtag = .unpacked ∧ hasJitOnlyOp = true then .packKc else mtag

/-- Threads, parallel products and threads per product. -/
structure BatchShare where
  nThreads : Int
  nGemmsInParallel : Int
  nThreadsPerGemm : Int
  deriving DecidableEq, Repr

/--
`dlp_calculate_n_threads_per_gemm`.  The runtime's thread count is `-1` or
positive, so the division of the source is defined.
-/
def dlpCalculateNThreadsPerGemm (groupSize : Nat) (rntm : DlpRntm) :
    BatchShare :=
  if groupSize = 0 then ⟨1, 1, 1⟩
  else
    let nThreads := rntm.numThreads
    let nGemmsInParallel : Int :=
      if nThreads = 1 then 1 else min nThreads groupSize
    ⟨nThreads, nGemmsInParallel, nThreads.tdiv nGemmsInParallel⟩

/-- The outputs of `batch_dlp_gemm_bf16bf16f32of32_get_threading`. -/
structure BatchThreading where
  nThreads : Nat
  nGemmsInParallel : Nat
  nThreadsPerGemm : Nat
  icWays : Nat
  jcWays : Nat
  deriving DecidableEq, Repr

/-- The ways of one product among its share of the threads. -/
def waysPerGemm (perGemm m n : Nat) (blksz : DlpGemmBlockSize) : Ways :=
  if n ≤ blksz.NR then ⟨perGemm * 1, perGemm, 1⟩
  else if m ≤ blksz.MR then ⟨1 * perGemm, 1, perGemm⟩
  else adjustIfRoom blksz.MR blksz.NR m n (seedWays perGemm m n)

/-- `batch_dlp_gemm_bf16bf16f32of32_get_threading`. -/
def batchDlpGemmBf16bf16f32of32GetThreading
    (groupSize m n : Nat) (rntm : DlpRntm) (blksz : DlpGemmBlockSize) :
    BatchThreading :=
  let share := dlpCalculateNThreadsPerGemm groupSize rntm
  if share.nThreadsPerGemm > 1 then
    let perGemm := share.nThreadsPerGemm.toNat
    let nGemms := share.nGemmsInParallel.toNat
    let ways := waysPerGemm perGemm m n blksz
    ⟨nGemms * ways.icWays * ways.jcWays, nGemms, ways.nThreads, ways.icWays,
      ways.jcWays⟩
  else if share.nGemmsInParallel > 1 then
    let nGemms := share.nGemmsInParallel.toNat
    ⟨nGemms, nGemms, 1, 1, 1⟩
  else ⟨1, 1, 1, 1, 1⟩

/-- One group of `aocl_batch_gemm_bf16s4f32of32`, as the decorator sees it. -/
structure GroupCall where
  groupSize : Nat
  m : Nat
  n : Nat
  k : Nat
  memFormatB : Char
  hasJitOnlyOp : Bool
  rntm : DlpRntm
  processor : Processor
  deriving DecidableEq, Repr

namespace GroupCall

/-- The scalar `mtag_b` of the entry point. -/
def mtagB (call : GroupCall) : MemoryTag :=
  if dlpParamMapCharToLpmtag call.memFormatB = .unpacked then .pack
  else dlpParamMapCharToLpmtag call.memFormatB

/-- The threading of the decorator, from the `BF16S4F32OF32` context. -/
def threading (call : GroupCall) : BatchThreading :=
  batchDlpGemmBf16bf16f32of32GetThreading call.groupSize call.m call.n
    call.rntm (dlpGemmCntxInitBlkszMap call.processor .bf16s4f32of32)

/-- `mtag_b_mp`; `MC` is that of the underlying kernel's context. -/
def mtagBMp (call : GroupCall) : MemoryTag :=
  dlpMtagBPick call.m call.n call.k call.threading.icWays
    call.threading.jcWays
    (dlpGemmCntxInitBlkszMap call.processor .bf16bf16f32of32).MC
    call.hasJitOnlyOp

/-- `[gemm_start, gemm_end)` of one OpenMP thread. -/
def gemmRange (call : GroupCall) (threadNum : Nat) : Nat × Nat :=
  dlpThreadTaskRange
    ⟨0, call.threading.nGemmsInParallel,
      threadNum / call.threading.nThreadsPerGemm⟩
    call.groupSize 1 false

end GroupCall

/-- Where a thread stands: the store of `i`, or the read and call after it. -/
structure Cursor where
  i : Nat
  stored : Bool
  deriving DecidableEq, Repr

/-- A call of `dlp_gemm_rowvar_bf16s4f32of32`. -/
structure RowvarCall where
  i : Nat
  mtagB : MemoryTag
  deriving DecidableEq, Repr

/-- The tags from the entry point's scalar on, the threads, and the logs. -/
structure BatchState where
  tags : Nat → MemoryTag
  cursor : Nat → Cursor
  accesses : List Nat
  calls : List RowvarCall

/-- The state before the parallel region. -/
def start (call : GroupCall) : BatchState where
  tags := fun _ => call.mtagB
  cursor := fun threadNum => ⟨(call.gemmRange threadNum).1, false⟩
  accesses := []
  calls := []

/-- One access of one thread. -/
def act (call : GroupCall) {team : Nat} (threadNum : Fin team)
    (state : BatchState) : BatchState :=
  let cursor := state.cursor threadNum
  if cursor.i < (call.gemmRange threadNum).2 then
    if cursor.stored then
      { tags := state.tags
        cursor := Function.update state.cursor threadNum
          ⟨cursor.i + 1, false⟩
        accesses := 0 :: state.accesses
        calls := ⟨cursor.i, state.tags 0⟩ :: state.calls }
    else
      { tags := Function.update state.tags cursor.i call.mtagBMp
        cursor := Function.update state.cursor threadNum ⟨cursor.i, true⟩
        accesses := cursor.i :: state.accesses
        calls := state.calls }
  else state

/-- The parallel region of the decorator with a delivered team. -/
def decorator (call : GroupCall) (team : Nat) : Machine BatchState :=
  Machine.ofActions (start call) (@act call team)

/-- The accesses are in bounds and the driver receives the picked tag. -/
structure TagContract (call : GroupCall) (state : BatchState) : Prop where
  bounds : ∀ index, index ∈ state.accesses → index = 0
  picked : ∀ rowvar, rowvar ∈ state.calls → rowvar.mtagB = call.mtagBMp

/-- The contract in every state of every interleaving of every team. -/
def MeetsContract (call : GroupCall) : Prop :=
  ∀ team, team ≤ call.threading.nThreads →
    ∀ state, (decorator call team).Reachable state →
      TagContract call state

/-! ## The split of the group -/

theorem parallel_pos_of_several {groupSize : Nat} {rntm : DlpRntm}
    (several : 1 <
      (dlpCalculateNThreadsPerGemm groupSize rntm).nThreadsPerGemm) :
    0 < (dlpCalculateNThreadsPerGemm groupSize rntm).nGemmsInParallel := by
  unfold dlpCalculateNThreadsPerGemm at several ⊢
  by_cases empty : groupSize = 0
  · simp [empty]
  · simp only [if_neg empty] at several ⊢
    by_cases single : rntm.numThreads = 1
    · simp [single]
    · simp only [if_neg single] at several ⊢
      have group : (1 : Int) ≤ groupSize := by omega
      rcases lt_or_ge 0 rntm.numThreads with positive | unset
      · exact lt_min positive (by omega)
      · rw [min_eq_left (by omega)] at several
        rcases eq_or_ne rntm.numThreads 0 with zero | negative
        · simp [zero] at several
        · rw [Int.tdiv_self negative] at several
          exact absurd several (lt_irrefl 1)

theorem waysPerGemm_exact {perGemm : Nat} (positive : 0 < perGemm)
    (m n : Nat) (blksz : DlpGemmBlockSize) :
    (waysPerGemm perGemm m n blksz).Exact := by
  have product : 0 < perGemm * 1 := by simpa using positive
  unfold waysPerGemm
  split
  · exact ⟨rfl, product⟩
  · split
    · exact ⟨rfl, by simpa using positive⟩
    · exact adjustIfRoom_exact _ _ _ _ (seedWays_exact positive _ _)

/-- The requested team is one thread group for each parallel product. -/
theorem threading_product (call : GroupCall) :
    call.threading.nThreads =
        call.threading.nGemmsInParallel * call.threading.nThreadsPerGemm ∧
      0 < call.threading.nGemmsInParallel ∧
      0 < call.threading.nThreadsPerGemm := by
  unfold GroupCall.threading batchDlpGemmBf16bf16f32of32GetThreading
  dsimp only
  split
  next several =>
    have parallel := parallel_pos_of_several several
    have positive : 0 < (dlpCalculateNThreadsPerGemm call.groupSize
        call.rntm).nThreadsPerGemm.toNat := by omega
    have exact := waysPerGemm_exact positive call.m call.n
      (dlpGemmCntxInitBlkszMap call.processor .bf16s4f32of32)
    refine ⟨?_, Int.lt_toNat.mpr parallel, exact.positive⟩
    rw [Nat.mul_assoc, exact.product]
  next =>
    split
    next parallel =>
      exact ⟨(Nat.mul_one _).symm,
        Int.lt_toNat.mpr (Int.zero_lt_one.trans parallel), Nat.one_pos⟩
    next => exact ⟨rfl, Nat.one_pos, Nat.one_pos⟩

theorem gemmRange_stop_le (call : GroupCall) (threadNum : Nat) :
    (call.gemmRange threadNum).2 ≤ call.groupSize := by
  unfold GroupCall.gemmRange
  rcases Nat.lt_or_ge (threadNum / call.threading.nThreadsPerGemm)
      call.threading.nGemmsInParallel with valid | retired
  · rw [dlpThreadTaskRange_highEdge _ _ _ valid]
    rcases highEdgeCut_ends call.groupSize 1 valid with last | inner
    · exact last.le
    · exact inner.2
  · rw [dlpThreadTaskRange_retired _ _ _ _ retired]

/-- Every product of the group belongs to some thread of the full team. -/
theorem exists_gemmRange (call : GroupCall) {i : Nat}
    (inGroup : i < call.groupSize) :
    ∃ threadNum, threadNum < call.threading.nThreads ∧
      (call.gemmRange threadNum).1 ≤ i ∧
      i < (call.gemmRange threadNum).2 := by
  rcases threading_product call with ⟨product, parallel, perGemm⟩
  rcases (taskCuts call.threading.nGemmsInParallel call.groupSize 1 parallel
      false).existsUnique_owns inGroup with ⟨workId, ⟨valid, owns⟩, _⟩
  have quotient : workId * call.threading.nThreadsPerGemm /
      call.threading.nThreadsPerGemm = workId :=
    Nat.mul_div_cancel workId perGemm
  have range : call.gemmRange (workId * call.threading.nThreadsPerGemm) =
      (highEdgeCut call.threading.nGemmsInParallel call.groupSize 1 workId,
        highEdgeCut call.threading.nGemmsInParallel call.groupSize 1
          (workId + 1)) := by
    unfold GroupCall.gemmRange
    rw [quotient]
    exact dlpThreadTaskRange_highEdge _ _ _ valid
  refine ⟨workId * call.threading.nThreadsPerGemm, ?_, ?_⟩
  · rw [product]
    exact Nat.mul_lt_mul_of_pos_right valid perGemm
  · rw [range]
    exact owns

/-! ## Groups of one -/

/-- A thread that has stored sees the pick. -/
structure Stored (call : GroupCall) (state : BatchState) : Prop where
  contract : TagContract call state
  visible : ∀ threadNum, (state.cursor threadNum).stored = true →
    state.tags 0 = call.mtagBMp

theorem stored_start (call : GroupCall) : Stored call (start call) where
  contract := ⟨nofun, nofun⟩
  visible := nofun

theorem stored_act {call : GroupCall} (single : call.groupSize ≤ 1)
    {team : Nat} (threadNum : Fin team) {state : BatchState}
    (safe : Stored call state) : Stored call (act call threadNum state) := by
  unfold act
  dsimp only
  by_cases running : (state.cursor threadNum).i <
      (call.gemmRange threadNum).2
  · have first : (state.cursor threadNum).i = 0 := by
      have bound := gemmRange_stop_le call threadNum
      omega
    rw [if_pos running]
    by_cases stored : (state.cursor threadNum).stored = true
    · rw [if_pos stored]
      have seen := safe.visible threadNum stored
      refine ⟨⟨?_, ?_⟩, fun _ _ => seen⟩
      · intro index member
        rcases List.mem_cons.mp member with rfl | earlier
        · rfl
        · exact safe.contract.bounds index earlier
      · intro rowvar member
        rcases List.mem_cons.mp member with rfl | earlier
        · exact seen
        · exact safe.contract.picked rowvar earlier
    · rw [if_neg stored, first]
      refine ⟨⟨?_, safe.contract.picked⟩, fun _ _ => ?_⟩
      · intro index member
        rcases List.mem_cons.mp member with rfl | earlier
        · rfl
        · exact safe.contract.bounds index earlier
      · exact Function.update_self 0 call.mtagBMp state.tags
  · rw [if_neg running]
    exact safe

theorem meetsContract_of_single {call : GroupCall}
    (single : call.groupSize ≤ 1) : MeetsContract call := by
  intro team _ state reachable
  have safe : Stored call state := reachable.invariant (Stored call)
    (by
      rintro _ rfl
      exact stored_start call)
    (by
      rintro current _ safe ⟨threadNum, rfl⟩
      exact stored_act single threadNum safe)
  exact safe.contract

/-! ## Larger groups -/

/-- A thread that runs alone reaches every product of its range. -/
theorem exists_reachable_cursor (call : GroupCall) {team : Nat}
    (threadNum : Fin team) {i : Nat}
    (lower : (call.gemmRange threadNum).1 ≤ i)
    (upper : i ≤ (call.gemmRange threadNum).2) :
    ∃ state, (decorator call team).Reachable state ∧
      state.cursor threadNum = ⟨i, false⟩ := by
  induction i, lower using Nat.le_induction with
  | base => exact ⟨start call, .init rfl, rfl⟩
  | succ i lower ih =>
      rcases ih (Nat.le_of_succ_le upper) with ⟨state, reachable, atStore⟩
      refine ⟨act call threadNum (act call threadNum state),
        (reachable.step ⟨threadNum, rfl⟩).step ⟨threadNum, rfl⟩, ?_⟩
      have running : i < (call.gemmRange threadNum).2 := upper
      simp [act, atStore, running]

theorem not_meetsContract_of_larger {call : GroupCall}
    (larger : 1 < call.groupSize) : ¬ MeetsContract call := by
  intro meets
  rcases exists_gemmRange call larger with
    ⟨threadNum, inTeam, lower, upper⟩
  rcases exists_reachable_cursor call ⟨threadNum, inTeam⟩ lower upper.le with
    ⟨state, reachable, atStore⟩
  have contract := meets _ le_rfl _
    (reachable.step ⟨⟨threadNum, inTeam⟩, rfl⟩)
  have accessed : 1 ∈
      (act call ⟨threadNum, inTeam⟩ state).accesses := by
    simp [act, atStore, upper]
  exact absurd (contract.bounds 1 accessed) (by decide)

/--
The decorator keeps to the one tag it was given, and hands it on, exactly for
groups of at most one product.
-/
theorem meetsContract_iff (call : GroupCall) :
    MeetsContract call ↔ call.groupSize ≤ 1 := by
  constructor
  · intro meets
    by_contra larger
    exact not_meetsContract_of_larger (Nat.lt_of_not_le larger) meets
  · exact meetsContract_of_single

/-- Two small products on two threads. -/
def pairCall : GroupCall where
  groupSize := 2
  m := 8
  n := 64
  k := 32
  memFormatB := 'n'
  hasJitOnlyOp := false
  rntm := ⟨2, -1, -1⟩
  processor := ⟨false, true, true, true, true, .zen5, false⟩

/--
The second thread runs first: it stores beyond the scalar and calls the driver
with the entry point's tag instead of the pick.
-/
theorem pairCall_breaks_contract :
    ¬ MeetsContract pairCall ∧
      ∃ state, (decorator pairCall 2).Reachable state ∧
        1 ∈ state.accesses ∧ ⟨1, .pack⟩ ∈ state.calls ∧
        pairCall.mtagBMp = .unpacked := by
  have reachable := Machine.reachable_runActions
    (show (decorator pairCall 2).Reachable (start pairCall) from .init rfl)
    [1, 1]
  have outOfBounds : 1 ∈ (Machine.runActions (@act pairCall 2)
      (start pairCall) [1, 1]).accesses := by decide
  refine ⟨fun meets => ?_, _, reachable, outOfBounds, by decide, by decide⟩
  have contract := meets 2 (by decide) _ reachable
  exact absurd (contract.bounds 1 outOfBounds) (by decide)

end AoclDlp.Threading.BatchTag
