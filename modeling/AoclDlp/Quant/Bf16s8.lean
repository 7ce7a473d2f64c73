import AoclDlp.DecisionEngine.PanelAgreement
import AoclDlp.Layout.S8s8s32
import AoclDlp.Quant.GroupSize
import AoclDlp.Threading.Barrier
import AoclDlp.Threading.Factorization

/-!
# The GEMM that quantises A on the fly

`aocl_gemm_bf16s8s32_impl` takes a BF16 matrix A with scale factors that turn
it into int8 while it is packed.  The quantisation parameters are looked at
three times: the entry point requires the pointers, the `ADQUANTIZE` post-op
checks the scale factors that undo the quantisation and the zero point, and
the frame, inside the parallel region, checks the ones that it reads.  Only
the first two can report an error.

A run is described by the kernel calls of its threads, each with the part of C
that it updates.  The output is split by the threads that are requested; with
fewer threads in the parallel region the parts of the missing ones are written
by nobody, and a group that packs B together waits for its missing threads.
-/

namespace AoclDlp.Quant.Bf16s8

open AoclDlp.Api.GemmCheck
open AoclDlp.Config.BlockSize
open AoclDlp.Config.LocalContext
open AoclDlp.DecisionEngine.KernelInit
open AoclDlp.DecisionEngine.PanelAgreement
open AoclDlp.Foundations.Rounding
open AoclDlp.Foundations.Span
open AoclDlp.Layout.Panel
open AoclDlp.Layout.S8s8s32
open AoclDlp.Quant.GroupSize
open AoclDlp.Threading.Barrier
open AoclDlp.Threading.Factorization
open AoclDlp.Threading.TaskRange
open AoclDlp.Threading.WorkPartition

/-! ## The frame -/

/-- One kernel call: the rows and columns of C that it updates, and whether
it belongs to the last K block. -/
structure CTile where
  rows : Piece
  columns : Piece
  isLastK : Bool
  deriving DecidableEq, Repr

/-- The steps of the `jc` loop: a reordered B keeps them inside its panels. -/
def columnPieces (mtagB : MemoryTag) (n NC : Nat) (range : Nat × Nat) :
    List Piece :=
  if mtagB = .reordered then
    (jcLoop n NC dlpGetPackbS8s8s32o32MinNR range.2 range.2 range.1).map
      JcStep.piece
  else pcLoop range.2 NC range.2 range.1

/-- A zero point that the frames refuse. -/
def zeroPointIsInvalid (op : DlpQuantOp) : Bool :=
  op.zeroPoint.any fun zp => zp.dataIsNull || decide (zp.len = 0)

/-- Scale factors that the frame cannot read. -/
def scaleFactorsAreMissing (op : DlpQuantOp) : Bool :=
  op.quantScaleFactors.all DlpQparam.dataIsNull

/-- `dlp_gemv_rowvar_bf16s8s32os32`; a thread that returns before its loop
makes no call list. -/
def dlpGemvRowvarBf16s8s32os32 (blksz : DlpGemmBlockSize) (m n : Nat)
    (mtagB : MemoryTag) (op : DlpQuantOp) (thread : DlpGemmThrinfo) :
    Option (List CTile) :=
  if zeroPointIsInvalid op then none
  else if n = 1 then
    let icRange := gemvIcRange thread m
    some ((pcLoop icRange.2 gemvMR icRange.2 icRange.1).map fun ic =>
      ⟨ic, ⟨0, 1⟩, true⟩)
  else
    some ((columnPieces mtagB n blksz.NC
      (gemvJcRange thread n blksz.NR)).map fun jc => ⟨⟨0, 1⟩, jc, true⟩)

/-- `dlp_gemm_rowvar_bf16s8s32os32` of one thread. -/
def dlpGemmRowvarBf16s8s32os32 (blksz : DlpGemmBlockSize) (m n k : Nat)
    (mtagB : MemoryTag) (aQuantOp : Option DlpQuantOp)
    (thread : DlpGemmThrinfo) : Option (List CTile) :=
  if mtagB = .unpacked then none
  else
    match aQuantOp with
    | none => none
    | some op =>
        if scaleFactorsAreMissing op then none
        else if m = 1 ∨ n = 1 then
          dlpGemvRowvarBf16s8s32os32 blksz m n mtagB op thread
        else if zeroPointIsInvalid op then none
        else
          let icRange := gemmIcRange thread m blksz.MR
          some ((columnPieces mtagB n blksz.NC
              (gemmJcRange thread n blksz.NR)).flatMap fun jc =>
            (pcLoop k blksz.KC k 0).flatMap fun pc =>
              (pcLoop icRange.2 blksz.MC icRange.2 icRange.1).flatMap
                fun ic =>
                  (pcLoop jc.width blksz.NR jc.width 0).map fun jr =>
                    ⟨ic, ⟨jc.start + jr.start, jr.width⟩,
                      decide (k ≤ pc.start + blksz.KC)⟩)

/-- The calls of `dlp_atomic_barrier` of a thread that runs its loops: two for
each packed tile of B and one before the buffer is released.  The GEMV drivers
pack privately. -/
def packBarriers (blksz : DlpGemmBlockSize) (m n k : Nat)
    (mtagB : MemoryTag) (thread : DlpGemmThrinfo) : Nat :=
  if m = 1 ∨ n = 1 then 0
  else if mtagB = .pack then
    2 * ((columnPieces mtagB n blksz.NC
      (gemmJcRange thread n blksz.NR)).length *
        (pcLoop k blksz.KC k 0).length) + 1
  else 0

/-! ## The entry point -/

/-- The number of threads that OpenMP delivers for a requested number. -/
structure OmpTeam where
  size : Nat → Nat
  size_pos : ∀ requested, 0 < requested → 0 < size requested
  size_le : ∀ requested, size requested ≤ requested

/-- What the entry point finds around it; `postOps` is the outcome of the
post-op translation, `tidDistr` of the thread-number distribution. -/
structure Bf16s8Surroundings where
  engine : Engine
  supThres : DlpGemmSupThreshold
  rntm : DlpRntm
  tidDistr : TidDistrType
  team : OmpTeam
  postOps : Except DlpClscErr Unit

/-- The arguments of the entry point. -/
structure Bf16s8Args where
  gemm : GemmArgs
  alpha : Int
  beta : Int
  deriving DecidableEq, Repr

/-- One of the required pointers is NULL. -/
def missesScaleFactors (op : Option DlpQuantOp) : Bool :=
  op.all fun op =>
    op.quantScaleFactors.isNone || op.dequantScaleFactors.isNone

/-- The checks of `dlp_gemm_translate_adquantize_post_op`. -/
def adquantizeRules (op : Option DlpQuantOp) (m : Int) : List Rule :=
  let dequant := op.bind DlpQuantOp.dequantScaleFactors
  let zeroPoint := op.bind DlpQuantOp.zeroPoint
  let lacksData (param : DlpQparam) : Bool :=
    decide (0 < param.len) && param.dataIsNull
  let tooShort (param : DlpQparam) : Bool :=
    decide (param.len ≠ 1) && decide (param.len < m)
  [⟨missesScaleFactors op, .nullPointer⟩,
    ⟨otherKind op, .notSupported⟩,
    ⟨dequant.any lacksData, .nullPointer⟩,
    ⟨dequant.any tooShort, .unexpectedVectorDim⟩,
    ⟨zeroPoint.any lacksData, .nullPointer⟩,
    ⟨zeroPoint.any tooShort, .unexpectedVectorDim⟩,
    ⟨dequant.any fun param =>
      decide (param.outerDim ≠ .perTensor) &&
        decide (param.outerDim ≠ .perToken), .unexpectedVectorDim⟩]

/-- The call that the checks of `aocl_gemm_bf16s8s32_impl` let through. -/
def checkBf16s8 (around : Bf16s8Surroundings) (args : Bf16s8Args)
    (metadata : Option QuantMetadata) : Except DlpClscErr GemmCall := do
  runRules [⟨!around.engine.machine.processor.avx512bf16, .notSupported⟩]
  aoclDlpGemmCheck args.gemm
  let aQuantOp := metadata.bind QuantMetadata.aQuantOp
  let mtagA := dlpParamMapCharToLpmtag args.gemm.memFormatA
  let mtagB := dlpParamMapCharToLpmtag args.gemm.memFormatB
  runRules
    [⟨missesScaleFactors aQuantOp, .nullPointer⟩,
      ⟨decide (args.beta ≠ 0), .notSupported⟩,
      ⟨isColumnMajor args.gemm.order, .notSupported⟩,
      ⟨decide (mtagA = .reordered), .notSupported⟩]
  runRules (adquantizeRules aQuantOp args.gemm.m)
  around.postOps
  .ok
    { m := args.gemm.m.toNat
      n := args.gemm.n.toNat
      k := args.gemm.k.toNat
      rsA := if isTrans args.gemm.transa then 1 else args.gemm.lda.toNat
      csB := if isTrans args.gemm.transb then args.gemm.ldb.toNat else 1
      mtagA := if mtagA = .unpacked then .pack else mtagA
      mtagB := if mtagB = .unpacked then .pack else mtagB
      rntm := ⟨around.rntm.numThreads, around.rntm.icWays,
        around.rntm.jcWays⟩
      shapeChangingGlu := false }

/-- The context with which the entry point asks for its kernel. -/
def settledCntx (around : Bf16s8Surroundings) (call : GemmCall) :
    DlpGemmCntx :=
  dlpInitAndGetKernelHndl around.engine .s8 call
    (globalCntx around.engine .s8 around.supThres)

/-- The split of the output among the requested threads. -/
def requestedWays (around : Bf16s8Surroundings) (blksz : DlpGemmBlockSize)
    (call : GemmCall) : Ways :=
  dlpGemmS32o32GetThreading call.m call.n around.rntm blksz.MR blksz.NR

/-- A thread of the parallel region. -/
def requestedThread (around : Bf16s8Surroundings)
    (blksz : DlpGemmBlockSize) (call : GemmCall) (threadNum : Nat) :
    DlpGemmThrinfo :=
  let ways := requestedWays around blksz call
  decoratorThread ways.icWays ways.jcWays
    (if call.mtagB = .reordered then around.tidDistr else .default) threadNum

/-- The threads that enter the parallel region. -/
def deliveredThreads (around : Bf16s8Surroundings)
    (blksz : DlpGemmBlockSize) (call : GemmCall) : List DlpGemmThrinfo :=
  (List.range (around.team.size
    (requestedWays around blksz call).nThreads)).map
      (requestedThread around blksz call)

/-- The parallel region of the decorator, thread by thread. -/
def runTeam (around : Bf16s8Surroundings) (blksz : DlpGemmBlockSize)
    (call : GemmCall) (aQuantOp : Option DlpQuantOp) :
    List (Option (List CTile)) :=
  (deliveredThreads around blksz call).map
    (dlpGemmRowvarBf16s8s32os32 blksz call.m call.n call.k call.mtagB
      aQuantOp)

/-- `jc_work_id`, the index of the communicator of a thread. -/
def jcWorkId (thread : DlpGemmThrinfo) : Nat :=
  (dlpGemmGenDlpTaskIds (some thread)).1.workId

/-- The threads that call the barriers of a communicator. -/
def callersOf (team : List DlpGemmThrinfo) (jc : Nat) : Nat :=
  team.countP fun thread => decide (jcWorkId thread = jc)

/-- A thread that runs its loops meets a barrier whose communicator counts
`ic_ways` threads, and fewer of them are in the parallel region. -/
def WaitsForever (around : Bf16s8Surroundings) (blksz : DlpGemmBlockSize)
    (call : GemmCall) (aQuantOp : Option DlpQuantOp) : Prop :=
  ∃ thread ∈ deliveredThreads around blksz call,
    (dlpGemmRowvarBf16s8s32os32 blksz call.m call.n call.k call.mtagB
      aQuantOp thread).isSome ∧
    0 < packBarriers blksz call.m call.n call.k call.mtagB thread ∧
    thread.icWays ≠ 1 ∧
    callersOf (deliveredThreads around blksz call) (jcWorkId thread) <
      thread.icWays

instance (around : Bf16s8Surroundings) (blksz : DlpGemmBlockSize)
    (call : GemmCall) (aQuantOp : Option DlpQuantOp) :
    Decidable (WaitsForever around blksz call aQuantOp) :=
  inferInstanceAs (Decidable (∃ _ ∈ _, _ ∧ _ ∧ _ ∧ _))

/-- The code in the metadata, none for success, and the calls of the team if
the decorator was entered. -/
structure Outcome where
  status : Option DlpClscErr
  team : Option (List (Option (List CTile)))
  deriving DecidableEq, Repr

/-- `aocl_gemm_bf16s8s32_impl`, `none` if it does not return; a missing kernel
is printed, not reported. -/
def aoclGemmBf16s8s32Impl (around : Bf16s8Surroundings) (args : Bf16s8Args)
    (metadata : Option QuantMetadata) : Option Outcome :=
  match checkBf16s8 around args metadata with
  | .error code => some ⟨some code, none⟩
  | .ok call =>
      let lcntx := settledCntx around call
      let aQuantOp := metadata.bind QuantMetadata.aQuantOp
      if lcntx.hasKernel then
        if WaitsForever around lcntx.blksz call aQuantOp then none
        else some ⟨none, some (runTeam around lcntx.blksz call aQuantOp)⟩
      else some ⟨none, none⟩

/-! ## Honest outcomes -/

/-- Every thread finished its loops, and every element was written by the
last K block of some thread. -/
structure Computed (m n : Nat) (team : List (Option (List CTile))) :
    Prop where
  finished : ∀ thread ∈ team, thread.isSome
  covered : ∀ i < m, ∀ j < n, ∃ tiles, some tiles ∈ team ∧
    ∃ tile ∈ tiles, tile.isLastK = true ∧ tile.rows.Has i ∧
      tile.columns.Has j

/-- Success means a computed C, any other status an untouched one. -/
structure Outcome.Honest (m n : Nat) (outcome : Outcome) : Prop where
  success : outcome.status = none →
    ∃ team, outcome.team = some team ∧ Computed m n team
  failure : outcome.status ≠ none →
    ∀ team, outcome.team = some team →
      ∀ tiles, some tiles ∈ team → tiles = []

/-- If the call returns, its outcome is honest. -/
def HonestCall (m n : Nat) (result : Option Outcome) : Prop :=
  ∀ outcome, result = some outcome → outcome.Honest m n

/-! ## When the delivered team suffices -/

/-- The rows that a thread updates. -/
def ownRows (blksz : DlpGemmBlockSize) (m n : Nat)
    (thread : DlpGemmThrinfo) : Nat × Nat :=
  if n = 1 then gemvIcRange thread m
  else if m = 1 then (0, 1)
  else gemmIcRange thread m blksz.MR

/-- The columns that a thread updates. -/
def ownColumns (blksz : DlpGemmBlockSize) (m n : Nat)
    (thread : DlpGemmThrinfo) : Nat × Nat :=
  if n = 1 then (0, 1)
  else if m = 1 then gemvJcRange thread n blksz.NR
  else gemmJcRange thread n blksz.NR

/-- A thread without rows or without columns. -/
def Idle (blksz : DlpGemmBlockSize) (m n : Nat)
    (thread : DlpGemmThrinfo) : Prop :=
  (ownRows blksz m n thread).2 ≤ (ownRows blksz m n thread).1 ∨
    (ownColumns blksz m n thread).2 ≤ (ownColumns blksz m n thread).1

/-- Every requested thread that is not delivered is idle. -/
def MissingIdle (around : Bf16s8Surroundings) (blksz : DlpGemmBlockSize)
    (call : GemmCall) : Prop :=
  ∀ threadNum,
    around.team.size (requestedWays around blksz call).nThreads ≤ threadNum →
    threadNum < (requestedWays around blksz call).nThreads →
    Idle blksz call.m call.n (requestedThread around blksz call threadNum)

/-- The team of a GEMM that packs B ends inside a `jc` group. -/
def SplitsGroup (around : Bf16s8Surroundings) (blksz : DlpGemmBlockSize)
    (call : GemmCall) : Prop :=
  call.mtagB = .pack ∧ ¬ (call.m = 1 ∨ call.n = 1) ∧
    ¬ (requestedWays around blksz call).icWays ∣
      around.team.size (requestedWays around blksz call).nThreads

/-! ## The loops cover the output -/

/-- Block sizes that step every loop of the frame. -/
structure Stepping (blksz : DlpGemmBlockSize) : Prop where
  MC_pos : 0 < blksz.MC
  NC_pos : 0 < blksz.NC
  KC_pos : 0 < blksz.KC
  MR_pos : 0 < blksz.MR
  NR_pos : 0 < blksz.NR

theorem columnPieces_chain (mtagB : MemoryTag) (n : Nat) {NC : Nat}
    (positive : 0 < NC) {range : Nat × Nat} (bounded : range.1 ≤ range.2) :
    Chain range.1 (columnPieces mtagB n NC range) range.2 := by
  unfold columnPieces
  split
  · exact jcLoop_chain n _ positive range.2 (Nat.le_add_left _ _) bounded
  · exact pcLoop_chain positive range.2 (Nat.le_add_left _ _) bounded

/-- A loop over a range visits every index of the range. -/
theorem exists_piece {step : Nat} (positive : 0 < step) {range : Nat × Nat}
    {index : Nat} (inside : InRange range index) :
    ∃ piece ∈ pcLoop range.2 step range.2 range.1, piece.Has index :=
  (pcLoop_chain positive range.2 (Nat.le_add_left _ _)
    (inside.1.trans inside.2.le)).exists_has inside.1 inside.2

theorem exists_columnPiece (mtagB : MemoryTag) (n : Nat) {NC : Nat}
    (positive : 0 < NC) {range : Nat × Nat} {index : Nat}
    (inside : InRange range index) :
    ∃ piece ∈ columnPieces mtagB n NC range, piece.Has index :=
  (columnPieces_chain mtagB n positive
    (inside.1.trans inside.2.le)).exists_has inside.1 inside.2

theorem exists_lastK {k KC : Nat} (rows : 0 < k) (positive : 0 < KC) :
    ∃ pc ∈ pcLoop k KC k 0, k ≤ pc.start + KC := by
  have last : InRange (0, k) (k - 1) := ⟨Nat.zero_le _, by simpa⟩
  rcases exists_piece positive last with ⟨pc, member, has⟩
  have width := (pcLoop_mem (dvd_zero KC) member).2.2
  have reaches := has.2
  exact ⟨pc, member, by omega⟩

section Frame

variable {blksz : DlpGemmBlockSize} {m n k : Nat} {mtagB : MemoryTag}
  {op : DlpQuantOp}

/-- The quantisation operation passes the checks inside the frame. -/
structure Readable (op : DlpQuantOp) : Prop where
  scaleFactors : scaleFactorsAreMissing op = false
  zeroPoint : zeroPointIsInvalid op = false

theorem gemv_runs (readable : Readable op) (packed : mtagB ≠ .unpacked)
    (vector : m = 1 ∨ n = 1) (thread : DlpGemmThrinfo) :
    dlpGemmRowvarBf16s8s32os32 blksz m n k mtagB (some op) thread =
      if n = 1 then
        some ((pcLoop (gemvIcRange thread m).2 gemvMR
          (gemvIcRange thread m).2 (gemvIcRange thread m).1).map fun ic =>
            ⟨ic, ⟨0, 1⟩, true⟩)
      else
        some ((columnPieces mtagB n blksz.NC
          (gemvJcRange thread n blksz.NR)).map fun jc =>
            ⟨⟨0, 1⟩, jc, true⟩) := by
  simp [dlpGemmRowvarBf16s8s32os32, dlpGemvRowvarBf16s8s32os32, packed,
    readable.scaleFactors, readable.zeroPoint, vector]

theorem gemm_runs (readable : Readable op) (packed : mtagB ≠ .unpacked)
    (matrix : ¬ (m = 1 ∨ n = 1)) (thread : DlpGemmThrinfo) :
    dlpGemmRowvarBf16s8s32os32 blksz m n k mtagB (some op) thread =
      some ((columnPieces mtagB n blksz.NC
          (gemmJcRange thread n blksz.NR)).flatMap fun jc =>
        (pcLoop k blksz.KC k 0).flatMap fun pc =>
          (pcLoop (gemmIcRange thread m blksz.MR).2 blksz.MC
              (gemmIcRange thread m blksz.MR).2
              (gemmIcRange thread m blksz.MR).1).flatMap fun ic =>
            (pcLoop jc.width blksz.NR jc.width 0).map fun jr =>
              ⟨ic, ⟨jc.start + jr.start, jr.width⟩,
                decide (k ≤ pc.start + blksz.KC)⟩) := by
  simp [dlpGemmRowvarBf16s8s32os32, packed, readable.scaleFactors,
    readable.zeroPoint, matrix]

theorem frame_finishes (readable : Readable op)
    (packed : mtagB ≠ .unpacked) (thread : DlpGemmThrinfo) :
    (dlpGemmRowvarBf16s8s32os32 blksz m n k mtagB (some op)
      thread).isSome := by
  by_cases vector : m = 1 ∨ n = 1
  · rw [gemv_runs readable packed vector]
    split <;> rfl
  · rw [gemm_runs readable packed vector]
    rfl

/-- A thread that owns the row and the column of an element writes it. -/
theorem gemm_writes (steps : Stepping blksz) (readable : Readable op)
    (packed : mtagB ≠ .unpacked) (matrix : ¬ (m = 1 ∨ n = 1))
    (depth : 0 < k) {thread : DlpGemmThrinfo} {i j : Nat}
    (row : InRange (gemmIcRange thread m blksz.MR) i)
    (column : InRange (gemmJcRange thread n blksz.NR) j) :
    ∃ tiles,
      dlpGemmRowvarBf16s8s32os32 blksz m n k mtagB (some op) thread =
          some tiles ∧
        ∃ tile ∈ tiles, tile.isLastK = true ∧ tile.rows.Has i ∧
          tile.columns.Has j := by
  rcases exists_columnPiece mtagB n steps.NC_pos column with
    ⟨jc, jcMember, jcHas⟩
  rcases exists_lastK depth steps.KC_pos with ⟨pc, pcMember, last⟩
  rcases exists_piece steps.MC_pos row with ⟨ic, icMember, icHas⟩
  have inPanel : InRange (0, jc.width) (j - jc.start) :=
    ⟨Nat.zero_le _, by have := jcHas.1; have := jcHas.2; dsimp only; omega⟩
  rcases exists_piece steps.NR_pos inPanel with ⟨jr, jrMember, jrHas⟩
  refine ⟨_, gemm_runs readable packed matrix thread,
    ⟨ic, ⟨jc.start + jr.start, jr.width⟩,
      decide (k ≤ pc.start + blksz.KC)⟩, ?_, decide_eq_true last, icHas, ?_⟩
  · exact List.mem_flatMap.mpr ⟨jc, jcMember, List.mem_flatMap.mpr
      ⟨pc, pcMember, List.mem_flatMap.mpr
        ⟨ic, icMember, List.mem_map_of_mem jrMember⟩⟩⟩
  · have lower := jcHas.1
    have first := jrHas.1
    have past := jrHas.2
    refine ⟨?_, ?_⟩
    · dsimp only
      omega
    · dsimp only
      omega

theorem frame_writes (steps : Stepping blksz) (readable : Readable op)
    (packed : mtagB ≠ .unpacked) (depth : 0 < k) {thread : DlpGemmThrinfo}
    {i j : Nat} (row : InRange (ownRows blksz m n thread) i)
    (column : InRange (ownColumns blksz m n thread) j) :
    ∃ tiles,
      dlpGemmRowvarBf16s8s32os32 blksz m n k mtagB (some op) thread =
          some tiles ∧
        ∃ tile ∈ tiles, tile.isLastK = true ∧ tile.rows.Has i ∧
          tile.columns.Has j := by
  unfold ownRows at row
  unfold ownColumns at column
  by_cases single : n = 1
  · rw [if_pos single] at row column
    have runs := @gemv_runs blksz m n k mtagB op readable packed
      (Or.inr single) thread
    rw [if_pos single] at runs
    rcases exists_piece (show 0 < gemvMR by decide) row with
      ⟨ic, member, has⟩
    exact ⟨_, runs, _, List.mem_map_of_mem member, rfl, has, column⟩
  · rw [if_neg single] at row column
    by_cases flat : m = 1
    · rw [if_pos flat] at row column
      have runs := @gemv_runs blksz m n k mtagB op readable packed
        (Or.inl flat) thread
      rw [if_neg single] at runs
      rcases exists_columnPiece mtagB n steps.NC_pos column with
        ⟨jc, member, has⟩
      exact ⟨_, runs, _, List.mem_map_of_mem member, rfl, row, has⟩
    · rw [if_neg flat] at row column
      exact gemm_writes steps readable packed (not_or.mpr ⟨flat, single⟩)
        depth row column

/-- A piece of the loop over a range lies in the range. -/
theorem inRange_of_piece {step : Nat} {range : Nat × Nat} {piece : Piece}
    (member : piece ∈ pcLoop range.2 step range.2 range.1) {index : Nat}
    (has : piece.Has index) : InRange range index := by
  have bounds := pcLoop_bounds member
  have lower := has.1
  have upper := has.2
  constructor <;> omega

theorem inRange_of_columnPiece {mtagB : MemoryTag} {n NC : Nat}
    (positive : 0 < NC) {range : Nat × Nat} {piece : Piece}
    (member : piece ∈ columnPieces mtagB n NC range) {index : Nat}
    (has : piece.Has index) : InRange range index := by
  unfold columnPieces at member
  split at member
  · rcases List.mem_map.mp member with ⟨jcStep, inLoop, rfl⟩
    have bounds := jcLoop_bounds positive inLoop
    have lower : jcStep.jc ≤ index := has.1
    have upper : index < jcStep.jc + jcStep.nc0 := has.2
    constructor <;> omega
  · exact inRange_of_piece member has

/-- A thread writes only what it owns. -/
theorem owns_of_writes (steps : Stepping blksz) (readable : Readable op)
    (packed : mtagB ≠ .unpacked) {thread : DlpGemmThrinfo}
    {tiles : List CTile} {tile : CTile} {i j : Nat}
    (runs : dlpGemmRowvarBf16s8s32os32 blksz m n k mtagB (some op) thread =
      some tiles) (member : tile ∈ tiles) (row : tile.rows.Has i)
    (column : tile.columns.Has j) :
    InRange (ownRows blksz m n thread) i ∧
      InRange (ownColumns blksz m n thread) j := by
  unfold ownRows ownColumns
  by_cases single : n = 1
  · rw [gemv_runs readable packed (Or.inr single), if_pos single] at runs
    rw [← Option.some.inj runs] at member
    rcases List.mem_map.mp member with ⟨ic, inLoop, rfl⟩
    rw [if_pos single, if_pos single]
    exact ⟨inRange_of_piece inLoop row, column⟩
  · rw [if_neg single, if_neg single]
    by_cases flat : m = 1
    · rw [gemv_runs readable packed (Or.inl flat), if_neg single] at runs
      rw [← Option.some.inj runs] at member
      rcases List.mem_map.mp member with ⟨jc, inLoop, rfl⟩
      rw [if_pos flat, if_pos flat]
      exact ⟨row, inRange_of_columnPiece steps.NC_pos inLoop column⟩
    · rw [gemm_runs readable packed (not_or.mpr ⟨flat, single⟩)] at runs
      rw [← Option.some.inj runs] at member
      rcases List.mem_flatMap.mp member with ⟨jc, jcMember, inRows⟩
      rcases List.mem_flatMap.mp inRows with ⟨pc, -, inBlocks⟩
      rcases List.mem_flatMap.mp inBlocks with ⟨ic, icMember, inStrips⟩
      rcases List.mem_map.mp inStrips with ⟨jr, jrMember, rfl⟩
      rw [if_neg flat, if_neg flat]
      have strip := pcLoop_bounds jrMember
      have lower : jc.start + jr.start ≤ j := column.1
      have upper : j < jc.start + jr.start + jr.width := column.2
      exact ⟨inRange_of_piece icMember row,
        inRange_of_columnPiece steps.NC_pos jcMember
          ⟨by omega, by omega⟩⟩

end Frame

/-! ## What the delivered team computes -/

section Team

variable {around : Bf16s8Surroundings} {blksz : DlpGemmBlockSize}
  {call : GemmCall}

theorem requestedWays_exact (around : Bf16s8Surroundings)
    (steps : Stepping blksz) (rows : 0 < call.m) (columns : 0 < call.n) :
    (requestedWays around blksz call).Exact :=
  s32o32GetThreading_exact around.rntm rows columns steps.MR_pos
    steps.NR_pos

/-- Every element belongs to one of the requested threads. -/
theorem existsUnique_owner (exactly : (requestedWays around blksz call).Exact)
    {i j : Nat} (row : i < call.m) (column : j < call.n) :
    ∃! threadNum, threadNum < (requestedWays around blksz call).nThreads ∧
      InRange (ownRows blksz call.m call.n
        (requestedThread around blksz call threadNum)) i ∧
      InRange (ownColumns blksz call.m call.n
        (requestedThread around blksz call threadNum)) j := by
  have product : 0 < (requestedWays around blksz call).icWays *
      (requestedWays around blksz call).jcWays :=
    exactly.product ▸ exactly.positive
  have icPos := Nat.pos_of_mul_pos_right product
  have jcPos := Nat.pos_of_mul_pos_left product
  unfold requestedThread ownRows ownColumns
  dsimp only
  rw [← exactly.product]
  generalize (if call.mtagB = .reordered then around.tidDistr
    else .default) = tidDistr
  by_cases single : call.n = 1
  · simp only [if_pos single]
    rcases existsUnique_gemvIc_thread icPos jcPos tidDistr row with
      ⟨threadNum, ⟨inTeam, owns⟩, only⟩
    refine ⟨threadNum, ⟨inTeam, owns, Nat.zero_le j, single ▸ column⟩, ?_⟩
    exact fun other owned => only other ⟨owned.1, owned.2.1⟩
  · simp only [if_neg single]
    by_cases flat : call.m = 1
    · simp only [if_pos flat]
      rcases @existsUnique_gemvJc_thread _ _ icPos jcPos tidDistr call.n
        blksz.NR j column with ⟨threadNum, ⟨inTeam, owns⟩, only⟩
      refine ⟨threadNum, ⟨inTeam, ⟨Nat.zero_le i, flat ▸ row⟩, owns⟩, ?_⟩
      exact fun other owned => only other ⟨owned.1, owned.2.2⟩
    · simp only [if_neg flat]
      exact existsUnique_gemm_thread icPos jcPos tidDistr row column

/-- A thread that is not idle owns an element. -/
theorem exists_owned {thread : DlpGemmThrinfo} {m n : Nat}
    (busy : ¬ Idle blksz m n thread) :
    ∃ i j, i < m ∧ j < n ∧ InRange (ownRows blksz m n thread) i ∧
      InRange (ownColumns blksz m n thread) j := by
  unfold Idle at busy
  rw [not_or, Nat.not_le, Nat.not_le] at busy
  have rows : (ownRows blksz m n thread).2 ≤ m := by
    unfold ownRows
    split_ifs with single flat
    · exact (dlpThreadTaskRange_bounds _ _ _).2
    · exact flat.ge
    · exact (dlpThreadTaskRange_bounds _ _ _).2
  have columns : (ownColumns blksz m n thread).2 ≤ n := by
    unfold ownColumns
    split_ifs with single flat
    · exact single.ge
    · exact (dlpThreadTaskRange_bounds _ _ _).2
    · exact (dlpThreadTaskRange_bounds _ _ _).2
  exact ⟨_, _, busy.1.trans_le rows, busy.2.trans_le columns,
    ⟨le_rfl, busy.1⟩, ⟨le_rfl, busy.2⟩⟩

/-- A team over readable parameters computes the whole output exactly if no
element belongs to a missing thread. -/
theorem runTeam_computed_iff {op : DlpQuantOp} (steps : Stepping blksz)
    (readable : Readable op) (packed : call.mtagB ≠ .unpacked)
    (rows : 0 < call.m) (columns : 0 < call.n) (depth : 0 < call.k) :
    Computed call.m call.n (runTeam around blksz call (some op)) ↔
      MissingIdle around blksz call := by
  have exactly := requestedWays_exact around steps rows columns
  constructor
  · intro computed missing late inTeam
    by_contra busy
    rcases exists_owned busy with ⟨i, j, row, column, ownsRow, ownsColumn⟩
    rcases computed.covered i row j column with
      ⟨tiles, member, tile, inTiles, -, hasRow, hasColumn⟩
    rcases List.mem_map.mp member with ⟨thread, delivered, runs⟩
    rcases List.mem_map.mp delivered with ⟨threadNum, inRange, rfl⟩
    have early := List.mem_range.mp inRange
    have owns := owns_of_writes steps readable packed runs inTiles hasRow
      hasColumn
    have same := (existsUnique_owner exactly row column).unique
      ⟨early.trans_le (around.team.size_le _), owns⟩
      ⟨inTeam, ownsRow, ownsColumn⟩
    omega
  · intro idle
    refine ⟨?_, ?_⟩
    · intro frame member
      rcases List.mem_map.mp member with ⟨thread, -, rfl⟩
      exact frame_finishes readable packed thread
    · intro i row j column
      rcases (existsUnique_owner exactly row column).exists with
        ⟨threadNum, inTeam, ownsRow, ownsColumn⟩
      have delivered : threadNum <
          around.team.size (requestedWays around blksz call).nThreads := by
        by_contra late
        rcases idle threadNum (Nat.le_of_not_lt late) inTeam with
          noRows | noColumns
        · exact absurd (ownsRow.1.trans_lt ownsRow.2) (Nat.not_lt.mpr noRows)
        · exact absurd (ownsColumn.1.trans_lt ownsColumn.2)
            (Nat.not_lt.mpr noColumns)
      rcases frame_writes steps readable packed depth ownsRow ownsColumn
        with ⟨tiles, runs, found⟩
      exact ⟨tiles, List.mem_map.mpr ⟨_, List.mem_map_of_mem
        (List.mem_range.mpr delivered), runs⟩, found⟩

/-- The numbers below `stop` with a given quotient. -/
theorem countP_quotient {width : Nat} (positive : 0 < width)
    (quotient stop : Nat) :
    (List.range stop).countP
        (fun number => decide (number / width = quotient)) =
      min stop (width * (quotient + 1)) - width * quotient := by
  have wider : width * (quotient + 1) = width * quotient + width :=
    Nat.mul_succ width quotient
  induction stop with
  | zero => simp
  | succ stop ih =>
      rw [List.range_succ, List.countP_append, ih, List.countP_singleton]
      by_cases same : stop / width = quotient
      · have bounds := (Nat.div_eq_iff positive).mp same
        rw [Nat.mul_comm quotient] at bounds
        rw [if_pos (decide_eq_true same)]
        omega
      · have outside : stop < width * quotient ∨
            width * (quotient + 1) ≤ stop := by
          by_contra inside
          rw [not_or, Nat.not_lt, Nat.not_le] at inside
          exact same (Nat.div_eq_of_lt_le
            ((Nat.mul_comm quotient width).trans_le inside.1)
            (inside.2.trans_eq (Nat.mul_comm width _)))
        rw [if_neg (by simpa using same)]
        omega

/-- Some group of consecutive numbers below `stop` is incomplete. -/
theorem exists_short_iff {width stop : Nat} (positive : 0 < width)
    (someone : 0 < stop) :
    (∃ number, number < stop ∧
      min stop (width * (number / width + 1)) - width * (number / width) <
        width) ↔ ¬ width ∣ stop := by
  constructor
  · rintro ⟨number, below, short⟩ ⟨groups, rfl⟩
    have start := Nat.mul_div_le number width
    have wider : width * (number / width + 1) =
        width * (number / width) + width := Nat.mul_succ _ _
    have inside : width * groups < width * (number / width + 1) := by omega
    have lower := Nat.lt_of_mul_lt_mul_left (start.trans_lt below)
    have upper := Nat.lt_of_mul_lt_mul_left inside
    omega
  · intro divides
    refine ⟨stop - 1, by omega, ?_⟩
    have start := Nat.mul_div_le (stop - 1) width
    have past := Nat.lt_mul_div_succ (stop - 1) positive
    have wider : width * ((stop - 1) / width + 1) =
        width * ((stop - 1) / width) + width := Nat.mul_succ _ _
    have inside : stop ≠ width * ((stop - 1) / width + 1) :=
      fun whole => divides ⟨_, whole⟩
    omega

/-- Over a packed B consecutive threads form a group. -/
theorem jcWorkId_requested (tag : call.mtagB = .pack) (threadNum : Nat) :
    jcWorkId (requestedThread around blksz call threadNum) =
      threadNum / (requestedWays around blksz call).icWays := by
  unfold requestedThread
  rw [tag]
  rfl

/-- The delivered threads of a group. -/
theorem callersOf_delivered (tag : call.mtagB = .pack)
    (icPos : 0 < (requestedWays around blksz call).icWays) (jc : Nat) :
    callersOf (deliveredThreads around blksz call) jc =
      min (around.team.size (requestedWays around blksz call).nThreads)
          ((requestedWays around blksz call).icWays * (jc + 1)) -
        (requestedWays around blksz call).icWays * jc := by
  rw [← countP_quotient icPos, callersOf, deliveredThreads, List.countP_map]
  exact List.countP_congr fun threadNum _ => by
    simp only [Function.comp_apply, jcWorkId_requested tag]

/-- A GEMM over a packed B waits forever exactly if its team ends inside a
group. -/
theorem waitsForever_iff {op : DlpQuantOp} (steps : Stepping blksz)
    (readable : Readable op) (packed : call.mtagB ≠ .unpacked)
    (rows : 0 < call.m) (columns : 0 < call.n) :
    WaitsForever around blksz call (some op) ↔
      SplitsGroup around blksz call := by
  have exactly := requestedWays_exact around steps rows columns
  have product : 0 < (requestedWays around blksz call).icWays *
      (requestedWays around blksz call).jcWays :=
    exactly.product ▸ exactly.positive
  have icPos := Nat.pos_of_mul_pos_right product
  have someone := around.team.size_pos _ exactly.positive
  unfold SplitsGroup WaitsForever packBarriers
  by_cases meets : call.mtagB = .pack ∧ ¬ (call.m = 1 ∨ call.n = 1)
  · rcases meets with ⟨tag, matrix⟩
    rw [and_iff_right tag, and_iff_right matrix,
      ← exists_short_iff icPos someone]
    constructor
    · rintro ⟨thread, member, -, -, -, short⟩
      rcases List.mem_map.mp member with ⟨threadNum, inRange, rfl⟩
      rw [jcWorkId_requested tag, callersOf_delivered tag icPos] at short
      exact ⟨threadNum, List.mem_range.mp inRange, short⟩
    · rintro ⟨threadNum, below, short⟩
      refine ⟨_, List.mem_map_of_mem (List.mem_range.mpr below),
        frame_finishes readable packed _, ?_, ?_, ?_⟩
      · rw [if_neg matrix, if_pos tag]
        exact Nat.succ_pos _
      · intro single
        have whole : (requestedWays around blksz call).icWays = 1 := single
        rw [whole] at short
        simp only [Nat.div_one, Nat.one_mul] at short
        omega
      · rw [jcWorkId_requested tag, callersOf_delivered tag icPos]
        exact short
  · constructor
    · rintro ⟨thread, -, -, barriers, -⟩
      exfalso
      apply meets
      by_cases vector : call.m = 1 ∨ call.n = 1
      · rw [if_pos vector] at barriers
        exact absurd barriers (lt_irrefl 0)
      · rw [if_neg vector] at barriers
        split at barriers
        next tag => exact ⟨tag, vector⟩
        next => exact absurd barriers (lt_irrefl 0)
    · rintro ⟨tag, matrix, -⟩
      exact absurd ⟨tag, matrix⟩ meets

end Team

/-! ## What an accepted call carries -/

theorem tables_step (processor : Processor) :
    Stepping (dlpGemmCntxInitBlkszMap processor .s8s8s32os32) := by
  unfold dlpGemmCntxInitBlkszMap withZen3Override
  split_ifs <;> exact ⟨by decide, by decide, by decide, by decide,
    by decide⟩

/-- The K block of an int8 kernel. -/
theorem s8_kc_pos {engine : Engine} {call : GemmCall} {hints : Hints}
    {info : KernelInfo} {threadInfo : DlpGemmThreadInfo}
    (positive : 0 < hints.kcHint)
    (returns : dlpGetGemmKernelInfoByDtype engine .s8 call hints =
      some (info, threadInfo)) : 0 < info.kc := by
  have padded := roundUp_pos (show 0 < kPackFactor .s8 by decide) positive
  unfold dlpGetGemmKernelInfoByDtype at returns
  simp only [reduceCtorEq, false_and, if_false] at returns
  split_ifs at returns with able vector
  · rw [Option.some.injEq, Prod.mk.injEq] at returns
    rw [← returns.1]
    unfold gemvKernelInfo
    split
    · exact padded
    · exact padded
  · unfold gemmKernelInfo at returns
    split_ifs at returns
    rw [Option.some.injEq, Prod.mk.injEq] at returns
    rw [← returns.1]
    exact padded

/-- A context that holds a kernel steps every loop. -/
theorem settledCntx_steps {around : Bf16s8Surroundings} {call : GemmCall}
    (holds : (settledCntx around call).hasKernel = true) :
    Stepping (settledCntx around call).blksz := by
  have table := tables_step around.engine.machine.processor
  unfold settledCntx at holds ⊢
  unfold dlpInitAndGetKernelHndl at holds ⊢
  split at holds
  · cases holds
  next info threadInfo returns =>
    split at holds
    · cases holds
    next sized =>
      rw [if_neg sized]
      rcases not_or.mp sized with ⟨rows, columns⟩
      exact
        { MC_pos := roundUp_pos (Nat.pos_of_ne_zero rows) table.MC_pos
          NC_pos := roundUp_pos (Nat.pos_of_ne_zero columns) table.NC_pos
          KC_pos := s8_kc_pos table.KC_pos returns
          MR_pos := Nat.pos_of_ne_zero rows
          NR_pos := Nat.pos_of_ne_zero columns }

/-- The two checks of the zero point leave the frame nothing to refuse. -/
theorem zeroPoint_valid {op : DlpQuantOp} {m : Int} (rows : 0 < m)
    (data : (op.zeroPoint.any fun zp =>
      decide (0 < zp.len) && zp.dataIsNull) = false)
    (length : (op.zeroPoint.any fun zp =>
      decide (zp.len ≠ 1) && decide (zp.len < m)) = false) :
    zeroPointIsInvalid op = false := by
  unfold zeroPointIsInvalid
  cases given : op.zeroPoint with
  | none => rfl
  | some zp =>
      rw [given] at data length
      have positive : 0 < zp.len := by
        by_contra short
        have rejected : (decide (zp.len ≠ 1) && decide (zp.len < m)) =
            true := by
          simp only [Bool.and_eq_true, decide_eq_true_eq]
          omega
        exact absurd (length.symm.trans rejected) Bool.false_ne_true
      have present : zp.dataIsNull = false := by
        simpa [positive] using data
      simp [present, positive.ne']

/-- What the checks establish. -/
structure Accepted (args : Bf16s8Args) (op : Option DlpQuantOp)
    (call : GemmCall) : Prop where
  m_eq : call.m = args.gemm.m.toNat
  n_eq : call.n = args.gemm.n.toNat
  rows : 0 < call.m
  columns : 0 < call.n
  depth : 0 < call.k
  packed : call.mtagB ≠ .unpacked
  scaleFactors : missesScaleFactors op = false
  zeroPoint : ∀ given, op = some given → zeroPointIsInvalid given = false

theorem accepted_of_check {around : Bf16s8Surroundings} {args : Bf16s8Args}
    {metadata : Option QuantMetadata} {call : GemmCall}
    (passes : checkBf16s8 around args metadata = .ok call) :
    Accepted args (metadata.bind QuantMetadata.aQuantOp) call := by
  rcases bind_ok passes with ⟨_, -, passes⟩
  rcases bind_ok passes with ⟨_, checked, passes⟩
  rcases bind_ok passes with ⟨_, entered, passes⟩
  rcases bind_ok passes with ⟨_, translated, passes⟩
  rcases bind_ok passes with ⟨_, -, passes⟩
  have sized := sized_of_check checked
  have rows := sized.m_pos
  have columns := sized.n_pos
  have depth := sized.k_pos
  have entry := (runRules_ok_iff _).mp entered
  have rules := (runRules_ok_iff _).mp translated
  cases passes
  refine ⟨rfl, rfl, by dsimp only; omega, by dsimp only; omega,
    by dsimp only; omega, ?_, ?_, ?_⟩
  · dsimp only
    split
    · exact MemoryTag.noConfusion
    · assumption
  · exact entry ⟨_, .nullPointer⟩ List.mem_cons_self
  · intro op given
    rw [given] at rules
    simp only [adquantizeRules, List.forall_mem_cons] at rules
    rcases rules with ⟨-, -, -, -, data, length, -, -⟩
    exact zeroPoint_valid rows data length

/-! ## When the outcome is honest -/

theorem frame_missing {blksz : DlpGemmBlockSize} {m n k : Nat}
    {mtagB : MemoryTag} {op : DlpQuantOp}
    (missing : scaleFactorsAreMissing op = true) (thread : DlpGemmThrinfo) :
    dlpGemmRowvarBf16s8s32os32 blksz m n k mtagB (some op) thread = none := by
  unfold dlpGemmRowvarBf16s8s32os32
  split
  · rfl
  · simp only [missing, if_true]

/-- A team without scale factors makes no call. -/
theorem runTeam_missing {around : Bf16s8Surroundings}
    {blksz : DlpGemmBlockSize} {call : GemmCall} {op : DlpQuantOp}
    (missing : scaleFactorsAreMissing op = true)
    {tiles : List CTile} :
    some tiles ∉ runTeam around blksz call (some op) := by
  intro member
  rcases List.mem_map.mp member with ⟨thread, -, runs⟩
  rw [frame_missing missing] at runs
  cases runs

/-- A team without scale factors meets no barrier. -/
theorem not_waitsForever_missing {around : Bf16s8Surroundings}
    {blksz : DlpGemmBlockSize} {call : GemmCall} {op : DlpQuantOp}
    (missing : scaleFactorsAreMissing op = true) :
    ¬ WaitsForever around blksz call (some op) := by
  rintro ⟨thread, -, runs, -⟩
  rw [frame_missing missing] at runs
  cases runs

/-- In a call that waits forever some delivered thread never returns from its
first barrier, whatever its group does. -/
theorem exists_detained {around : Bf16s8Surroundings}
    {blksz : DlpGemmBlockSize} {call : GemmCall}
    {aQuantOp : Option DlpQuantOp}
    (waits : WaitsForever around blksz call aQuantOp) :
    ∃ thread ∈ deliveredThreads around blksz call,
      0 < packBarriers blksz call.m call.n call.k call.mtagB thread ∧
      ∀ state, (shortMachine thread.icWays (callersOf
          (deliveredThreads around blksz call)
            (jcWorkId thread))).Reachable state →
        ∀ caller, (state.callers caller).returned = 0 := by
  rcases waits with ⟨thread, delivered, -, barriers, several, short⟩
  exact ⟨thread, delivered, barriers, fun _ reachable caller =>
    short_never_returns several short reachable caller⟩

/-- A call that does not return promises nothing. -/
theorem honestCall_none {m n : Nat} : HonestCall m n none := by
  rintro outcome ⟨⟩

/-- A refused call is honest. -/
theorem honestCall_refused {m n : Nat} (code : DlpClscErr) :
    HonestCall m n (some ⟨some code, none⟩) := by
  rintro outcome ⟨⟩
  refine ⟨?_, ?_⟩
  · rintro ⟨⟩
  · rintro - team ⟨⟩

/-- Success without a team is not honest. -/
theorem not_honestCall_unserved {m n : Nat} :
    ¬ HonestCall m n (some ⟨none, none⟩) := by
  intro honest
  rcases (honest _ rfl).success rfl with ⟨team, entered, -⟩
  cases entered

/-- Success with a team is honest exactly if the team computes C. -/
theorem honestCall_ran_iff {m n : Nat}
    {team : List (Option (List CTile))} :
    HonestCall m n (some ⟨none, some team⟩) ↔ Computed m n team := by
  constructor
  · intro honest
    rcases (honest _ rfl).success rfl with ⟨entered, same, computed⟩
    rw [← Option.some.inj same] at computed
    exact computed
  · rintro computed outcome ⟨⟩
    exact ⟨fun _ => ⟨team, rfl, computed⟩, fun refused => absurd rfl refused⟩

/-- The team of an accepted call is honest exactly if it can read its scale
factors and, unless it waits forever, no missing thread owns a part of C. -/
theorem team_honest_iff {around : Bf16s8Surroundings} {args : Bf16s8Args}
    {blksz : DlpGemmBlockSize} {call : GemmCall} {op : DlpQuantOp}
    (steps : Stepping blksz) (accepted : Accepted args (some op) call) :
    HonestCall call.m call.n
        (if WaitsForever around blksz call (some op) then none
        else some ⟨none, some (runTeam around blksz call (some op))⟩) ↔
      scaleFactorsAreMissing op = false ∧
        (SplitsGroup around blksz call ∨ MissingIdle around blksz call) := by
  cases missing : scaleFactorsAreMissing op with
  | true =>
      rw [if_neg (not_waitsForever_missing missing), honestCall_ran_iff]
      constructor
      · intro computed
        rcases computed.covered 0 accepted.rows 0 accepted.columns with
          ⟨tiles, member, -⟩
        exact absurd member (runTeam_missing missing)
      · rintro ⟨⟨⟩, -⟩
  | false =>
      have readable : Readable op := ⟨missing, accepted.zeroPoint op rfl⟩
      have waiting : WaitsForever around blksz call (some op) ↔
          SplitsGroup around blksz call :=
        waitsForever_iff steps readable accepted.packed accepted.rows
          accepted.columns
      rw [and_iff_right rfl]
      by_cases waits : WaitsForever around blksz call (some op)
      · rw [if_pos waits]
        exact iff_of_true honestCall_none (Or.inl (waiting.mp waits))
      · rw [if_neg waits, honestCall_ran_iff,
          or_iff_right fun splits => waits (waiting.mpr splits)]
        exact runTeam_computed_iff steps readable accepted.packed
          accepted.rows accepted.columns accepted.depth

/--
A call that returns is honest exactly when it is refused, or a kernel is
generated, the data of the scale factors that quantise A is there, and no
missing thread owns a part of C.  A team that ends inside a group of a packed
B keeps the call from returning.
-/
theorem bf16s8_honest_iff (around : Bf16s8Surroundings) (args : Bf16s8Args)
    (metadata : QuantMetadata) :
    HonestCall args.gemm.m.toNat args.gemm.n.toNat
        (aoclGemmBf16s8s32Impl around args (some metadata)) ↔
      ∀ call, checkBf16s8 around args (some metadata) = .ok call →
        (settledCntx around call).hasKernel = true ∧
          (∀ op, metadata.aQuantOp = some op →
            scaleFactorsAreMissing op = false) ∧
          (SplitsGroup around (settledCntx around call).blksz call ∨
            MissingIdle around (settledCntx around call).blksz call) := by
  unfold aoclGemmBf16s8s32Impl
  cases checked : checkBf16s8 around args (some metadata) with
  | error code =>
      refine ⟨?_, fun _ => honestCall_refused code⟩
      rintro - call ⟨⟩
  | ok call =>
      have accepted := accepted_of_check checked
      rw [Option.bind_some] at accepted
      cases stated : metadata.aQuantOp with
      | none =>
          have required := accepted.scaleFactors
          rw [stated] at required
          cases required
      | some op =>
          rw [stated] at accepted
          rw [← accepted.m_eq, ← accepted.n_eq, Option.bind_some, stated]
          dsimp only
          cases holds : (settledCntx around call).hasKernel with
          | false =>
              rw [if_neg Bool.false_ne_true]
              refine iff_of_false not_honestCall_unserved fun condition => ?_
              have kernel := (condition call rfl).1
              rw [holds] at kernel
              cases kernel
          | true =>
              rw [if_pos rfl,
                team_honest_iff (settledCntx_steps holds) accepted]
              constructor
              · rintro ⟨present, serves⟩ _ ⟨⟩
                refine ⟨holds, ?_, serves⟩
                rintro _ ⟨⟩
                exact present
              · intro condition
                rcases condition call rfl with ⟨-, present, serves⟩
                exact ⟨present op rfl, serves⟩

/-- The whole team is delivered. -/
def wholeTeam : OmpTeam where
  size requested := requested
  size_pos _ positive := positive
  size_le requested := Nat.le_refl requested

/-- A single-threaded Zen5 machine whose generators emit the given kernels. -/
def zen5Around (jitKernel : GemmCall → KernelInfo → Bool) :
    Bf16s8Surroundings where
  engine := { zen5Engine with jitKernel := jitKernel }
  supThres := ⟨0, 0, 0⟩
  rntm := ⟨1, 1, 1⟩
  tidDistr := .default
  team := wholeTeam
  postOps := .ok ()

/-- An 8 by 8 product of depth 8. -/
def smallArgs : Bf16s8Args :=
  ⟨⟨'r', 'n', 'n', 8, 8, 8, false, 8, 'n', false, 8, 'n', false, 8⟩, 1, 0⟩

/-- Per-tensor parameters; the data that quantises A may be missing. -/
def perTensor (dataIsNull : Bool) : QuantMetadata where
  cntx := ⟨none, none, none⟩
  seqLength := 0
  hasGlu := false
  aQuantOp := some
    { quantOpKind := .quantize
      groupSize := 0
      quantScaleFactors := some ⟨dataIsNull, 1, .f32, .perTensor⟩
      dequantScaleFactors := some ⟨false, 1, .f32, .perTensor⟩
      zeroPoint := none }
  bQuantOp := none

/-- Without a kernel, and without the data that quantises A, the entry point
reports success over an output that no thread wrote. -/
theorem bf16s8_success_without_compute :
    ¬ HonestCall 8 8 (aoclGemmBf16s8s32Impl (zen5Around fun _ _ => false)
        smallArgs (some (perTensor false))) ∧
      ¬ HonestCall 8 8 (aoclGemmBf16s8s32Impl (zen5Around fun _ _ => true)
        smallArgs (some (perTensor true))) := by
  refine ⟨fun honest => ?_, fun honest => ?_⟩
  · rcases (honest _ rfl).success rfl with ⟨team, entered, -⟩
    cases entered
  · rcases (honest ⟨none, some [none]⟩ (by decide)).success rfl with
      ⟨team, entered, computed⟩
    cases entered
    exact absurd (computed.finished none (by decide)) (by decide)

end AoclDlp.Quant.Bf16s8
