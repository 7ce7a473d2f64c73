import AoclDlp.Foundations.RoundBarrier
import AoclDlp.Layout.S8s8s32

/-!
# The s8s8s32 five-loop as a team of threads

`dlp_gemm_rowvar_s8s8s32o32` runs once per thread.  In the `REORDERED` branch a
thread only calls the micro-kernel.  In the `PACK` branch the threads of one
`jc` work id share a buffer: the chief allocates it and publishes the pointer,
every thread packs its part of the current panel, and barriers separate the
publication, the packing and the kernel calls of each `jc` and `pc` step.

A program is the list of a thread's operations between its barriers, and an
operation acts on the pointers, the blocks and the output.  A block is named
by the thread that allocated it, since a chief allocates at most once.
-/

namespace AoclDlp.Gemm.Rowvar

open AoclDlp.Config.BlockSize
open AoclDlp.Foundations.Accumulation
open AoclDlp.Foundations.Memory
open AoclDlp.Foundations.RoundBarrier
open AoclDlp.Foundations.Span
open AoclDlp.Layout.Chunk
open AoclDlp.Layout.Panel
open AoclDlp.Layout.ReorderRef
open AoclDlp.Layout.S8s8s32
open AoclDlp.Threading.TaskRange
open AoclDlp.Threading.WorkPartition

/-! ## Programs -/

/-- `b` with its strides for `PACK`, or the buffer of a reorder. -/
inductive BOperand where
  | pack (b : Bytes) (rsB csB : Nat)
  | reordered (buffer : ReorderBuffer)

/-- The arguments of `dlp_gemm_rowvar_s8s8s32o32` that the team shares, with
`c_downscale` for int32 output and no post-ops. -/
structure GemmArgs where
  m : Nat
  n : Nat
  k : Nat
  a : Bytes
  rsA : Nat
  csA : Nat
  b : BOperand
  rsC : Nat
  alpha : BitVec 32
  beta : BitVec 32
  blksz : DlpGemmBlockSize
  icWays : Nat
  jcWays : Nat

/-- One `jc` and `pc` step of the `PACK` branch, with the offset of the column
sums in the buffer. -/
structure PackRound where
  jc : Nat
  nc0 : Nat
  pc : Nat
  kc0 : Nat
  columnSum : Nat
  deriving DecidableEq, Repr

/-- What a thread does between two barrier calls.  Operations of the `PACK`
branch carry the number of their round. -/
inductive GemmOp where
  | publish
  | receive
  | clear (round columnSum start stop : Nat)
  | pack (round : Nat) (block : PackRound) (start stop : Nat)
  | kernel (round : Nat) (call : KernelCall)
  | free
  deriving DecidableEq, Repr

namespace GemmArgs

variable (args : GemmArgs)

/-- The thread record of a `tid`. -/
def thread (tid : Nat) : DlpGemmThrinfo where
  nThreads := args.icWays * args.jcWays
  tid := tid
  icWays := args.icWays
  jcWays := args.jcWays

/-- `thread_ic` of a `tid`. -/
def threadIc (tid : Nat) : DlpTaskId :=
  (dlpGemmGenDlpTaskIds (some (args.thread tid))).2

/-- `thread_jc.work_id` of a `tid`, which names its communicator. -/
def jcWorkId (tid : Nat) : Nat :=
  (dlpGemmGenDlpTaskIds (some (args.thread tid))).1.workId

/-- `dlp_thread_am_ochief` on `thread_ic`. -/
def AmOchief (tid : Nat) : Prop :=
  (args.threadIc tid).ocommId = 0

instance (tid : Nat) : Decidable (args.AmOchief tid) :=
  inferInstanceAs (Decidable (_ = _))

/-- The `pc` steps of one `jc` step; `pack_b_column_sum` is set at `pc == 0`
and kept by the later steps. -/
def packRows (jc nc0 : Nat) : Nat → List Piece → List PackRound
  | _, [] => []
  | columnSum, row :: rest =>
      let nc0Updated := dlpMakeMultipleOfN nc0 dlpGetPackbS8s8s32o32MinNR
      let kc0Updated := dlpMakeMultipleOfN row.width 4
      let current :=
        if row.start = 0 then nc0Updated * kc0Updated else columnSum
      ⟨jc, nc0, row.start, row.width, current⟩ ::
        packRows jc nc0 current rest

/-- The rounds of a thread in the `PACK` branch. -/
def packRounds (tid : Nat) : List PackRound :=
  let jcRange := gemmJcRange (args.thread tid) args.n args.blksz.NR
  (pcLoop jcRange.2 args.blksz.NC jcRange.2 jcRange.1).flatMap fun step =>
    packRows step.start step.width 0 (pcLoop args.k args.blksz.KC args.k 0)

/-- `jc_packb_start` and `jc_packb_end`. -/
def packRange (tid nc0 : Nat) : Nat × Nat :=
  dlpThreadTaskRange (args.threadIc tid) nc0 args.blksz.NR false

/-- What a thread does between the two barriers of a round. -/
def packSegment (tid number : Nat) (round : PackRound) : List GemmOp :=
  let range := args.packRange tid round.nc0
  .receive ::
    if range.1 < range.2 ∧ range.1 < round.jc + round.nc0 then
      (if round.pc = 0 then
        [.clear number round.columnSum range.1 range.2]
      else []) ++
        [.pack number round range.1 range.2]
    else []

/-- The row-block loop of a round. -/
def kernelSegment (tid number : Nat) (round : PackRound) : List GemmOp :=
  let icRange := gemmIcRange (args.thread tid) args.m args.blksz.MR
  ((pcLoop icRange.2 args.blksz.MC icRange.2 icRange.1).flatMap fun ic =>
    jrLoop args.blksz.NR ⟨round.jc, round.nc0, round.jc, 0, 0⟩
      ⟨round.pc, round.kc0⟩ ic 0 round.columnSum round.nc0 0 0).map
        (GemmOp.kernel number)

/-- What the chief does before the first barrier of a round. -/
def publishSegment (tid : Nat) : List GemmOp :=
  if args.AmOchief tid then [.publish] else []

/-- What the chief does behind the last barrier. -/
def freeSegment (tid : Nat) : List GemmOp :=
  if args.AmOchief tid then [.free] else []

/-- The segments of a thread in the `PACK` branch; `before` are the kernel
calls of the previous round. -/
def packSegments (tid : Nat) :
    Nat → List PackRound → List GemmOp → List (List GemmOp)
  | _, [], before => [before, args.freeSegment tid]
  | number, round :: rest, before =>
      (before ++ args.publishSegment tid) ::
        args.packSegment tid number round ::
        packSegments tid (number + 1) rest
          (args.kernelSegment tid number round)

/-- `dlp_gemm_rowvar_s8s8s32o32`, cut at its barrier calls. -/
def program (tid : Nat) : List (List GemmOp) :=
  match args.b with
  | .pack _ _ _ => args.packSegments tid 0 (args.packRounds tid) []
  | .reordered _ =>
      [(dlpGemmRowvarS8s8s32o32 args.blksz args.m args.n args.k
        (args.thread tid)).map (GemmOp.kernel 0)]

/-- The team; the threads of one `jc` work id share a communicator. -/
def team : Team GemmOp where
  count := args.icWays * args.jcWays
  group := args.jcWorkId
  program := args.program

end GemmArgs

/-! ## Operations -/

/-- The communicators' `sent_object`, the threads' `pack_b_buffer_s8s8s32o32`,
the allocated blocks with their contents, and the output. -/
structure GemmMemory where
  sentObject : Nat → Option Nat
  packB : Nat → Option Nat
  live : Nat → Bool
  heap : Nat → ReorderBuffer
  c : Nat → BitVec 32

/-- Nothing is allocated or published yet. -/
def GemmMemory.start (heap : Nat → ReorderBuffer) (c : Nat → BitVec 32) :
    GemmMemory :=
  ⟨fun _ => none, fun _ => none, fun _ => false, heap, c⟩

/-- Change the block that a thread's pointer names. -/
def GemmMemory.onBuffer (memory : GemmMemory) (tid : Nat)
    (change : ReorderBuffer → ReorderBuffer) : GemmMemory :=
  match memory.packB tid with
  | none => memory
  | some block =>
      { memory with
        heap := Function.update memory.heap block
          (change (memory.heap block)) }

namespace GemmArgs

variable (args : GemmArgs)

/-- Where the micro-kernel finds element `(kr, j)` of its strip of B. -/
def stripAddress (call : KernelCall) (kr j : Nat) : Nat :=
  let first := chunkStart call.nr0 args.blksz.NR 16 j
  call.bAddress + (first * dlpMakeMultipleOfN call.kc0 4 +
    dlpReorderElemOffset kr (j - first)
      (chunkSlot call.nr0 args.blksz.NR 16 j) 4)

/-- The accumulator of the micro-kernel: int8 A is offset by 128 for the
unsigned dot product. -/
def accumulator (buffer : ReorderBuffer) (call : KernelCall) (i j : Nat) :
    BitVec 32 :=
  ((List.range call.kc0).map fun kr =>
    (widen (args.a ((args.rsA * call.ic + args.csA * call.pc) +
        (args.rsA * i + args.csA * kr))) + 128) *
      widen (buffer.image (args.stripAddress call kr j))).sum

/-- `is_last_k`. -/
def IsLastK (pc : Nat) : Prop :=
  args.k ≤ pc + args.blksz.KC

instance (pc : Nat) : Decidable (args.IsLastK pc) :=
  inferInstanceAs (Decidable (_ ≤ _))

/-- `conversionCompensation`: the column sum that the last `pc` step
subtracts. -/
def compensation (buffer : ReorderBuffer) (call : KernelCall) (j : Nat) :
    BitVec 32 :=
  if args.IsLastK call.pc then
    buffer.words (call.bColSumVec + 4 * (call.bSumOffset + j))
  else 0

/-- `beta0` of a `pc` step. -/
def beta0 (pc : Nat) : BitVec 32 :=
  if pc = 0 then args.beta else 1

/-- The cells of the output tile of a call, and how the call changes them. -/
def kernelUpdates (buffer : ReorderBuffer) (call : KernelCall) :
    List (Nat × (BitVec 32 → BitVec 32)) :=
  (List.range call.mc0).flatMap fun i =>
    (List.range call.nr0).map fun j =>
      (call.jc + args.rsC * call.ic + call.jr + (args.rsC * i + j),
        fun c => args.beta0 call.pc * c +
          args.alpha * (args.accumulator buffer call i j -
            args.compensation buffer call j))

/-- The tile that the pack kernel reads and writes. -/
def packTileOf (block : PackRound) (start stop : Nat) : Tile where
  jc := block.jc + start
  nc0 := stop - start
  pc := block.pc
  kc0 := block.kc0
  off := start * dlpMakeMultipleOfN block.kc0 4

/-- `dlp_execute_packb_kernel` on a thread's part of a panel. -/
def packB (b : Bytes) (rsB csB : Nat) (block : PackRound)
    (start stop : Nat) (buffer : ReorderBuffer) : ReorderBuffer where
  image :=
    packTile (s8Blocks args.blksz) (s8Shape args.n args.k rsB csB) b
      (packTileOf block start stop) buffer.image
  words :=
    addAll
      (columnSumWrites args.blksz
        (rsB * block.pc + (block.jc + start) * csB) (stop - start)
        block.kc0 rsB csB (block.columnSum + 4 * start) b)
      buffer.words

/-- The buffer behind the `b_use` of a thread. -/
def kernelBuffer (memory : GemmMemory) (tid : Nat) :
    Option ReorderBuffer :=
  match args.b with
  | .pack _ _ _ => (memory.packB tid).map memory.heap
  | .reordered buffer => some buffer

/-- One operation of one thread. -/
def exec (tid : Nat) (memory : GemmMemory) : GemmOp → GemmMemory
  | .publish =>
      let block := (memory.packB tid).getD tid
      { memory with
        live := if (memory.packB tid).isNone then
          Function.update memory.live tid true else memory.live
        packB := Function.update memory.packB tid (some block)
        sentObject := Function.update memory.sentObject
          (args.jcWorkId tid) (some block) }
  | .receive =>
      { memory with
        packB := Function.update memory.packB tid
          (memory.sentObject (args.jcWorkId tid)) }
  | .clear _ columnSum start stop =>
      memory.onBuffer tid fun buffer =>
        { buffer with
          words := clearWords (columnSum + 4 * start) (stop - start)
            buffer.words }
  | .pack _ block start stop =>
      match args.b with
      | .pack b rsB csB =>
          memory.onBuffer tid (args.packB b rsB csB block start stop)
      | .reordered _ => memory
  | .kernel _ call =>
      match args.kernelBuffer memory tid with
      | none => memory
      | some buffer =>
          { memory with
            c := changeAll (args.kernelUpdates buffer call) memory.c }
  | .free =>
      match memory.packB tid with
      | none => memory
      | some block =>
          { memory with live := Function.update memory.live block false }

/-- The memory behind a log of the team. -/
def memoryAfter (log : List (Event GemmOp)) (memory : GemmMemory) :
    GemmMemory :=
  log.foldl
    (fun current event => args.exec event.thread current event.act) memory

end GemmArgs

end AoclDlp.Gemm.Rowvar
