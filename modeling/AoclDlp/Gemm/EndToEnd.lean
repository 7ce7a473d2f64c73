import AoclDlp.Gemm.PackSums

/-!
# The s8s8s32 product end to end

A pending kernel call finds its strip of B and the sums of its columns where
it looks for them, in a packed panel as in a reordered buffer.  The output of
a run is therefore the output of kernel calls that read the matrix, and of
these an element sees the ones of its own thread, once for each `pc` step.
-/

namespace AoclDlp.Gemm.EndToEnd

open AoclDlp.Foundations.Memory
open AoclDlp.Foundations.RoundBarrier
open AoclDlp.Foundations.Span
open AoclDlp.Gemm.Cells
open AoclDlp.Gemm.PackContents
open AoclDlp.Gemm.PackProtocol
open AoclDlp.Gemm.PackSums
open AoclDlp.Gemm.Rounds
open AoclDlp.Gemm.Rowvar
open AoclDlp.Layout.Panel
open AoclDlp.Layout.ReorderRef
open AoclDlp.Layout.S8s8s32
open AoclDlp.Threading.TaskRange
open AoclDlp.Threading.WorkPartition

variable {args : GemmArgs} {b : Bytes} {rsB csB : Nat}
    {heap : Nat → ReorderBuffer} {c : Nat → BitVec 32}

/-! ## Kernel calls read the matrix -/

/-- A call on a packed panel. -/
theorem packed_reads (legal : S8Legal args.blksz)
    (operand : args.b = .pack b rsB csB) {state : State GemmOp}
    (reachable : args.team.machine.Reachable state)
    {thread number : Nat} {round : PackRound} {call : KernelCall}
    (stands : AtKernels args state thread number round)
    (calls : Calls args thread round call) :
    ReadsMatrix args (element b rsB csB)
      ((args.memoryAfter state.log (GemmMemory.start heap c)).heap
        (chief args thread)) call := by
  have shape := roundShape legal.NC_pos legal.KC_pos
    (List.mem_of_getElem? stands.found)
  rcases calls with ⟨ic, -, inLoop⟩
  rcases jrLoop_mem (dvd_zero args.blksz.NR) inLoop with
    ⟨aligned, inside, same⟩
  have width : call.nr0 = min (round.nc0 - call.jr) args.blksz.NR := by
    rw [same]
  have height : call.kc0 = round.kc0 := by rw [same]
  have base : call.bAddress = 0 + call.jr *
      dlpMakeMultipleOfN round.kc0 4 := by rw [same]
  have place : call.jc = round.jc ∧ call.pc = round.pc := by
    rw [same]
    exact ⟨rfl, rfl⟩
  refine ⟨?_, ?_⟩
  · intro kr j row column
    have slot := stripAddress_eq_slotOf legal
      (panelTile_placed legal shape) aligned inside width height base row
      column
    change _ = slotOf legal.blocks round.nc0 round.kc0 (0 + kr)
      (0 + call.jr + j) at slot
    rw [Nat.zero_add, Nat.zero_add] at slot
    rw [slot, panel_image legal operand reachable heap c stands
      (height ▸ row) (by omega), place.1, place.2, element]
    congr 2
    ring
  · intro last j column
    have sums := panel_sums legal operand reachable heap c stands
      (place.2 ▸ last) (show call.jr + j < round.nc0 by omega)
    have sumPlace : call.bColSumVec = round.columnSum ∧
        call.bSumOffset = call.jr := by
      rw [same]
      exact ⟨rfl, rfl⟩
    rw [sumPlace.1, sumPlace.2, sums, place.1, columnTotal, Nat.add_assoc]

/-- A call on a reordered buffer. -/
theorem reordered_reads (legal : S8Legal args.blksz) {numThreads : Int}
    (schedule : Schedule (s8Blocks args.blksz)
      (s8Shape args.n args.k rsB csB) (reorderThreads numThreads))
    (buffer : ReorderBuffer) (thread : DlpGemmThrinfo) {call : KernelCall}
    (member : call ∈ dlpGemmRowvarS8s8s32o32 args.blksz args.m args.n
      args.k thread) :
    ReadsMatrix args (element b rsB csB)
      (dlpReorderbS8s8s32o32 schedule b buffer) call := by
  rcases exists_fromTile legal thread member with ⟨tile, origin⟩
  have fits := origin.placed.column_end_le
  have width := origin.nr0
  have inside := origin.jr_lt
  refine ⟨?_, ?_⟩
  · intro kr j row column
    have inRows : call.pc + kr < args.k := by
      have bound := origin.placed.kc0_eq
      have start := origin.placed.row_lt
      rw [origin.kc0] at row
      rw [origin.pc]
      omega
    have inColumns : call.jc + call.jr + j < args.n := by
      rw [origin.jc]
      omega
    rw [stripAddress_eq_slotOf legal origin.placed origin.jr_dvd
        origin.jr_lt origin.nr0 origin.kc0 origin.bAddress row column,
      ← origin.pc, ← origin.jc,
      image_at_slot legal schedule b buffer inRows inColumns, element]
  · intro _ j column
    have inColumns : call.jc + call.jr + j < args.n := by
      rw [origin.jc]
      omega
    have address : call.bColSumVec + 4 * (call.bSumOffset + j) =
        packBColumnSum args.n args.k + 4 * (call.jc + call.jr + j) := by
      rw [Nat.mul_add, ← Nat.add_assoc, origin.columnSum_address]
      ring
    rw [address, words_at_column legal schedule b buffer inColumns,
      columnTotal]

/-! ## The output of a run -/

/-- The changes of an operation whose B operand is the matrix. -/
def opUpdates (args : GemmArgs) (bElement : Nat → Nat → BitVec 32) :
    GemmOp → List (Nat × (BitVec 32 → BitVec 32))
  | .kernel _ call => matrixUpdates args bElement call
  | .publish | .receive | .clear _ _ _ _ | .pack _ _ _ _ | .free => []

/-- A kernel operation finds a buffer from which its call reads the matrix. -/
def OpReads (args : GemmArgs) (bElement : Nat → Nat → BitVec 32)
    (memory : GemmMemory) (tid : Nat) (op : GemmOp) : Prop :=
  ∀ number call, op = .kernel number call →
    ∃ buffer, args.kernelBuffer memory tid = some buffer ∧
      ReadsMatrix args bElement buffer call

section Output

variable {bElement : Nat → Nat → BitVec 32}

theorem onBuffer_c (memory : GemmMemory) (tid : Nat)
    (change : ReorderBuffer → ReorderBuffer) :
    (memory.onBuffer tid change).c = memory.c := by
  unfold GemmMemory.onBuffer
  split
  · rfl
  · rfl

theorem exec_c {tid : Nat} {memory : GemmMemory} {op : GemmOp}
    (reads : OpReads args bElement memory tid op) :
    (args.exec tid memory op).c =
      changeAll (opUpdates args bElement op) memory.c := by
  cases op with
  | publish => rfl
  | receive => rfl
  | clear number columnSum start stop => exact onBuffer_c memory tid _
  | pack number block start stop =>
      unfold GemmArgs.exec
      dsimp only
      split
      · exact onBuffer_c memory tid _
      · rfl
  | kernel number call =>
      rcases reads number call rfl with ⟨buffer, found, readsMatrix⟩
      unfold GemmArgs.exec
      dsimp only
      rw [found]
      dsimp only
      rw [kernelUpdates_eq readsMatrix]
      rfl
  | free =>
      unfold GemmArgs.exec
      dsimp only
      split
      · rfl
      · rfl

/-- In all reachable states, pending kernel calls read the matrix. -/
def ServesMatrix (args : GemmArgs) (bElement : Nat → Nat → BitVec 32)
    (heap : Nat → ReorderBuffer) (c : Nat → BitVec 32) : Prop :=
  ∀ state, args.team.machine.Reachable state →
    ∀ thread op, thread < args.team.count →
      (state.cursor thread).Pends op →
        OpReads args bElement
          (args.memoryAfter state.log (GemmMemory.start heap c)) thread op

/-- The output of a run is that of kernel calls on the matrix. -/
theorem c_of_reachable (serves : ServesMatrix args bElement heap c)
    {state : State GemmOp} (reachable : args.team.machine.Reachable state) :
    (args.memoryAfter state.log (GemmMemory.start heap c)).c =
      changeAll
        (state.log.flatMap fun event => opUpdates args bElement event.act)
        c := by
  induction reachable with
  | init start =>
      have same : _ = args.team.initial := start
      rw [same]
      rfl
  | @step state next before step ih =>
      cases step with
      | @run tid op rest inTeam todo =>
          have reads := serves state before tid op inTeam ⟨rest, todo⟩
          change (args.memoryAfter (state.log ++ [_]) _).c =
            changeAll ((state.log ++ [_]).flatMap _) c
          rw [memoryAfter_append, exec_c reads, ih, List.flatMap_append,
            List.flatMap_singleton, changeAll, changeAll, changeAll,
            List.foldl_append]
      | pass _ _ _ _ => exact ih

theorem packed_serves (legal : S8Legal args.blksz)
    (operand : args.b = .pack b rsB csB) (heap : Nat → ReorderBuffer)
    (c : Nat → BitVec 32) :
    ServesMatrix args (element b rsB csB) heap c := by
  rintro state reachable thread op inTeam pends number call rfl
  have packing : PacksB args := ⟨b, rsB, csB, operand⟩
  rcases atKernels_of_pends packing (Team.inv_of_reachable reachable) inTeam
    pends with ⟨round, stands, calls⟩
  have found : args.kernelBuffer
      (args.memoryAfter state.log (GemmMemory.start heap c)) thread =
        some ((args.memoryAfter state.log (GemmMemory.start heap c)).heap
          (chief args thread)) := by
    unfold GemmArgs.kernelBuffer
    rw [operand]
    dsimp only
    rw [sees_chief packing reachable heap c inTeam pends trivial]
    rfl
  exact ⟨_, found, packed_reads legal operand reachable stands calls⟩

theorem reordered_serves (legal : S8Legal args.blksz) {numThreads : Int}
    (schedule : Schedule (s8Blocks args.blksz)
      (s8Shape args.n args.k rsB csB) (reorderThreads numThreads))
    {buffer : ReorderBuffer}
    (operand : args.b = .reordered (dlpReorderbS8s8s32o32 schedule b buffer))
    (heap : Nat → ReorderBuffer) (c : Nat → BitVec 32) :
    ServesMatrix args (element b rsB csB) heap c := by
  rintro state reachable thread op inTeam pends number call rfl
  have inProgram := (Team.inv_of_reachable reachable).pends_mem inTeam pends
  rcases mem_eventsFrom.mp inProgram with ⟨-, -, segment, found, member⟩
  have member : call ∈ dlpGemmRowvarS8s8s32o32 args.blksz args.m args.n
      args.k (args.thread thread) := by
    change (args.program thread)[_]? = some segment at found
    unfold GemmArgs.program at found
    rw [operand] at found
    rw [List.mem_singleton.mp (List.mem_of_getElem? found)] at member
    rcases List.mem_map.mp member with ⟨other, inCalls, same⟩
    cases same
    exact inCalls
  refine ⟨_, ?_, reordered_reads legal schedule buffer _ member⟩
  unfold GemmArgs.kernelBuffer
  rw [operand]

end Output

/-! ## The changes of a program -/

/-- The `ic` blocks of a thread. -/
def icBlocks (args : GemmArgs) (tid : Nat) : List Piece :=
  pcLoop (gemmIcRange (args.thread tid) args.m args.blksz.MR).2
    args.blksz.MC (gemmIcRange (args.thread tid) args.m args.blksz.MR).2
    (gemmIcRange (args.thread tid) args.m args.blksz.MR).1

section Program

variable {bElement : Nat → Nat → BitVec 32}

/-- The kernel calls of a round. -/
theorem kernelSegment_updates (tid number : Nat) (round : PackRound) :
    (args.kernelSegment tid number round).flatMap
        (opUpdates args bElement) =
      (icBlocks args tid).flatMap fun ic =>
        (jrLoop args.blksz.NR ⟨round.jc, round.nc0, round.jc, 0, 0⟩
          ⟨round.pc, round.kc0⟩ ic 0 round.columnSum round.nc0 0
          0).flatMap (matrixUpdates args bElement) := by
  unfold GemmArgs.kernelSegment icBlocks
  dsimp only
  rw [List.flatMap_map, List.flatMap_assoc]
  rfl

/-- Of the segments of a program, the kernel segments change the output. -/
theorem packSegments_updates (tid number : Nat) (rounds : List PackRound)
    (before : List GemmOp) :
    (args.packSegments tid number rounds before).flatten.flatMap
        (opUpdates args bElement) =
      before.flatMap (opUpdates args bElement) ++
        rounds.flatMap fun round =>
          (icBlocks args tid).flatMap fun ic =>
            (jrLoop args.blksz.NR ⟨round.jc, round.nc0, round.jc, 0, 0⟩
              ⟨round.pc, round.kc0⟩ ic 0 round.columnSum round.nc0 0
              0).flatMap (matrixUpdates args bElement) := by
  have publish : (args.publishSegment tid).flatMap
      (opUpdates args bElement) = [] := by
    unfold GemmArgs.publishSegment
    split
    · rfl
    · rfl
  have free : (args.freeSegment tid).flatMap
      (opUpdates args bElement) = [] := by
    unfold GemmArgs.freeSegment
    split
    · rfl
    · rfl
  have pack (number : Nat) (round : PackRound) :
      (args.packSegment tid number round).flatMap
        (opUpdates args bElement) = [] := by
    rw [List.flatMap_eq_nil_iff]
    intro op member
    rcases mem_packSegment.mp member with rfl | ⟨-, ⟨-, rfl⟩ | rfl⟩
    · rfl
    · rfl
    · rfl
  induction rounds generalizing number before with
  | nil =>
      rw [GemmArgs.packSegments, List.flatten_cons, List.flatten_cons,
        List.flatten_nil, List.append_nil, List.flatMap_append, free]
      rfl
  | cons round rest ih =>
      rw [GemmArgs.packSegments, List.flatten_cons, List.flatten_cons,
        List.flatMap_append, List.flatMap_append, List.flatMap_append,
        publish, pack, ih, kernelSegment_updates, List.flatMap_cons,
        List.append_nil, List.nil_append]

theorem icBlocks_chain (positive : 0 < args.blksz.MC) (tid : Nat) :
    Chain (gemmIcRange (args.thread tid) args.m args.blksz.MR).1
      (icBlocks args tid)
      (gemmIcRange (args.thread tid) args.m args.blksz.MR).2 :=
  pcLoop_chain positive _ (Nat.le_add_left _ _)
    (dlpThreadTaskRange_bounds _ _ _).1

/-- The `jc` steps of a thread cover its column range. -/
def Steps (args : GemmArgs) (tid : Nat) (steps : List JcStep) : Prop :=
  Chain (gemmJcRange (args.thread tid) args.n args.blksz.NR).1
    (steps.map JcStep.piece)
    (gemmJcRange (args.thread tid) args.n args.blksz.NR).2

theorem Steps.fits {tid : Nat} {steps : List JcStep}
    (covers : Steps args tid steps) :
    ∀ step, step ∈ steps → step.jc + step.nc0 ≤ args.n := by
  intro step member
  have bounds := Chain.bounds covers (List.mem_map_of_mem member)
  exact bounds.2.2.trans (dlpThreadTaskRange_bounds _ _ _).2

theorem packed_nest (legal : S8Legal args.blksz)
    (operand : args.b = .pack b rsB csB) (tid : Nat) :
    ∃ steps bUse bColSumVec, Steps args tid steps ∧
      (args.program tid).flatten.flatMap (opUpdates args bElement) =
        nestUpdates args bElement steps
          (pcLoop args.k args.blksz.KC args.k 0) (icBlocks args tid) bUse
          bColSumVec := by
  let range := gemmJcRange (args.thread tid) args.n args.blksz.NR
  let pieces := pcLoop range.2 args.blksz.NC range.2 range.1
  let stepOf (piece : Piece) : JcStep :=
    ⟨piece.start, piece.width, piece.start, 0, 0⟩
  refine ⟨pieces.map stepOf, fun _ _ => 0,
    fun step row => (roundAt args step.piece row).columnSum, ?_, ?_⟩
  · have same : (pieces.map stepOf).map JcStep.piece = pieces := by
      rw [List.map_map]
      exact List.map_id' pieces
    unfold Steps
    rw [same]
    exact pcLoop_chain legal.NC_pos _ (Nat.le_add_left _ _)
      (dlpThreadTaskRange_bounds _ _ _).1
  · rw [program_eq ⟨b, rsB, csB, operand⟩, packSegments_updates,
      packRounds_eq_map legal.KC_pos, List.flatMap_assoc]
    unfold nestUpdates
    rw [List.flatMap_map]
    apply List.flatMap_congr
    intro step _
    rw [List.flatMap_map]
    rfl

theorem reordered_nest (legal : S8Legal args.blksz) {buffer : ReorderBuffer}
    (operand : args.b = .reordered buffer) (tid : Nat) :
    ∃ steps bUse bColSumVec, Steps args tid steps ∧
      (args.program tid).flatten.flatMap (opUpdates args bElement) =
        nestUpdates args bElement steps
          (pcLoop args.k args.blksz.KC args.k 0) (icBlocks args tid) bUse
          bColSumVec := by
  let range := gemmJcRange (args.thread tid) args.n args.blksz.NR
  refine ⟨jcLoop args.n args.blksz.NC dlpGetPackbS8s8s32o32MinNR range.2
      range.2 range.1,
    fun step row => step.jcCurLoop * dlpMakeMultipleOfN args.k 4 +
      step.nSubUpdated * row.start +
      step.jcCurLoopRem * dlpMakeMultipleOfN row.width 4,
    fun step _ => dlpMakeMultipleOfN args.k 4 *
      dlpMakeMultipleOfN args.n 16 + 4 * step.jc, ?_, ?_⟩
  · exact jcLoop_chain args.n dlpGetPackbS8s8s32o32MinNR legal.NC_pos _
      (Nat.le_add_left _ _) (dlpThreadTaskRange_bounds _ _ _).1
  · unfold GemmArgs.program
    rw [operand]
    dsimp only
    rw [List.flatten_singleton, List.flatMap_map]
    unfold dlpGemmRowvarS8s8s32o32 nestUpdates
    dsimp only
    simp only [List.flatMap_assoc]
    rfl

/-- The changes of a program are those of a loop nest. -/
theorem program_nest (legal : S8Legal args.blksz) (tid : Nat) :
    ∃ steps bUse bColSumVec, Steps args tid steps ∧
      (args.program tid).flatten.flatMap (opUpdates args bElement) =
        nestUpdates args bElement steps
          (pcLoop args.k args.blksz.KC args.k 0) (icBlocks args tid) bUse
          bColSumVec := by
  cases operand : args.b with
  | pack b rsB csB => exact packed_nest legal operand tid
  | reordered buffer => exact reordered_nest legal operand tid

end Program

/-! ## The output of a complete run -/

/-- The arguments with which the five-loop runs; with one row or one column
the driver is another. -/
structure FiveLoop (args : GemmArgs) : Prop where
  rows : 2 ≤ args.m
  columns : 2 ≤ args.n
  depth : 1 ≤ args.k
  blocks : S8Legal args.blksz
  MC_pos : 0 < args.blksz.MC
  MC_dvd : args.blksz.MR ∣ args.blksz.MC
  icWays_pos : 1 ≤ args.icWays
  jcWays_pos : 1 ≤ args.jcWays
  ldc : args.n ≤ args.rsC

section Complete

variable {bElement : Nat → Nat → BitVec 32} {state : State GemmOp}
    {i j : Nat}

/-- The thread computes an element of the output. -/
def Computes (args : GemmArgs) (tid i j : Nat) : Prop :=
  InRange (gemmIcRange (args.thread tid) args.m args.blksz.MR) i ∧
    InRange (gemmJcRange (args.thread tid) args.n args.blksz.NR) j

/-- What the `pc` steps do to an element. -/
def cellUpdates (args : GemmArgs) (bElement : Nat → Nat → BitVec 32)
    (i j : Nat) : List (Nat × (BitVec 32 → BitVec 32)) :=
  (pcLoop args.k args.blksz.KC args.k 0).map fun row =>
    (args.rsC * i + j, cellChange args bElement i j row)

theorem program_inside (loop : FiveLoop args) {tid : Nat}
    (column : j < args.n) (computes : Computes args tid i j) :
    ((args.program tid).flatten.flatMap (opUpdates args bElement)).filter
        (fun change => change.1 = args.rsC * i + j) =
      cellUpdates args bElement i j := by
  rcases program_nest loop.blocks tid with
    ⟨steps, bUse, bColSumVec, covers, changes⟩
  rw [changes]
  exact nestUpdates_inside loop.blocks.NR_pos loop.ldc column covers
    covers.fits (icBlocks_chain loop.MC_pos tid) computes.2 computes.1

theorem program_outside (loop : FiveLoop args) {tid : Nat}
    (column : j < args.n) (other : ¬ Computes args tid i j) :
    ((args.program tid).flatten.flatMap (opUpdates args bElement)).filter
        (fun change => change.1 = args.rsC * i + j) = [] := by
  rcases program_nest loop.blocks tid with
    ⟨steps, bUse, bColSumVec, covers, changes⟩
  rw [changes]
  exact nestUpdates_outside loop.blocks.NR_pos loop.ldc column covers
    covers.fits (icBlocks_chain loop.MC_pos tid) other

/-- A complete run changes an element once for each `pc` step. -/
theorem log_cell (loop : FiveLoop args)
    (reachable : args.team.machine.Reachable state)
    (complete : args.team.Complete state) (row : i < args.m)
    (column : j < args.n) :
    (state.log.flatMap fun event => opUpdates args bElement
        event.act).filter (fun change => change.1 = args.rsC * i + j) =
      cellUpdates args bElement i j := by
  have inv := Team.inv_of_reachable reachable
  have unique : ∃! tid, tid < args.icWays * args.jcWays ∧
      Computes args tid i j :=
    existsUnique_gemm_thread loop.icWays_pos loop.jcWays_pos .default row
      column
  rcases unique with ⟨owner, ⟨inTeam, computes⟩, only⟩
  have others : ∀ event, event ∈ state.log → event.thread ≠ owner →
      (opUpdates args bElement event.act).filter
        (fun change => change.1 = args.rsC * i + j) = [] := by
    intro event logged apart
    have outside := @program_outside args bElement i j loop event.thread
      column fun same => apart (only event.thread
        ⟨(inv.logged event logged).1, same⟩)
    rcases mem_eventsFrom.mp (inv.log_mem logged) with
      ⟨-, -, segment, found, member⟩
    rw [List.filter_flatMap, List.flatMap_eq_nil_iff] at outside
    exact outside event.act (List.mem_flatten.mpr
      ⟨segment, List.mem_of_getElem? found, member⟩)
  have inside := @program_inside args bElement i j loop owner column computes
  rw [← eventsFrom_acts owner 0, List.flatMap_map, List.filter_flatMap]
    at inside
  rw [List.filter_flatMap, flatMap_ownLog others,
    inv.ownLog_complete complete inTeam]
  exact inside

/-- The product, as the team leaves it. -/
def IsProduct (args : GemmArgs) (b : Bytes) (rsB csB : Nat)
    (before after : Nat → BitVec 32) : Prop :=
  ∀ i j, i < args.m → j < args.n →
    after (args.rsC * i + j) =
      args.beta * before (args.rsC * i + j) + args.alpha *
        ((List.range args.k).map fun p =>
          widen (args.a (args.rsA * i + args.csA * p)) *
            widen (b (rsB * p + csB * j))).sum

theorem product_of_complete (loop : FiveLoop args)
    (serves : ServesMatrix args (element b rsB csB) heap c)
    (reachable : args.team.machine.Reachable state)
    (complete : args.team.Complete state) :
    IsProduct args b rsB csB c
      (args.memoryAfter state.log (GemmMemory.start heap c)).c := by
  intro i j row column
  have place (p : Nat) : rsB * p + csB * j = p * rsB + j * csB := by ring
  simp only [place]
  rw [c_of_reachable serves reachable, changeAll_apply,
    log_cell loop reachable complete row column, cellUpdates,
    List.foldl_map, foldl_cells loop.blocks.KC_pos loop.depth,
    offsetDot_sub_columnTotal]
  rfl

end Complete

/-- The B operand is the matrix itself or the buffer of a reorder of it, under
any schedule of any team. -/
def Delivers (args : GemmArgs) (b : Bytes) (rsB csB : Nat) : Prop :=
  args.b = .pack b rsB csB ∨
    ∃ (numThreads : Int)
      (schedule : Schedule (s8Blocks args.blksz)
        (s8Shape args.n args.k rsB csB) (reorderThreads numThreads))
      (buffer : ReorderBuffer),
      args.b = .reordered (dlpReorderbS8s8s32o32 schedule b buffer)

theorem Delivers.serves (legal : S8Legal args.blksz)
    (delivers : Delivers args b rsB csB) (heap : Nat → ReorderBuffer)
    (c : Nat → BitVec 32) :
    ServesMatrix args (element b rsB csB) heap c := by
  rcases delivers with operand | ⟨numThreads, schedule, buffer, operand⟩
  · exact packed_serves legal operand heap c
  · exact reordered_serves legal schedule operand heap c

theorem Delivers.balanced (delivers : Delivers args b rsB csB) :
    args.team.Balanced := by
  rcases delivers with operand | ⟨numThreads, schedule, buffer, operand⟩
  · exact team_balanced ⟨b, rsB, csB, operand⟩
  · intro thread other _
    change (args.program other).length = (args.program thread).length
    unfold GemmArgs.program
    rw [operand]
    rfl

/-- A signed product with two `pc` steps and a fringe column, on four
threads. -/
def fringeArgs : GemmArgs where
  m := 3
  n := 17
  k := 5
  a := fun address => UInt8.ofNat (250 - 9 * address)
  rsA := 5
  csA := 1
  b := .pack (fun address => UInt8.ofNat (7 * address)) 17 1
  rsC := 17
  alpha := 3
  beta := 2
  blksz := ⟨1, 32, 4, 1, 16⟩
  icWays := 2
  jcWays := 2

end AoclDlp.Gemm.EndToEnd
