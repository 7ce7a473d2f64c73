import AoclDlp.Gemm.F32Kernel
import AoclDlp.Layout.Panel
import AoclDlp.Threading.WorkPartition

/-!
# The F32 frames

`dlp_gemm_rowvar_f32f32f32of32` walks the columns `NC` and the rows `MC` at a
time and packs what its tags ask for; `dlp_gemm_rowvar_tiny_f32f32f32of32`
hands the whole problem to one kernel call and packs B only where the kernel
could not read it.  Both have a GEMV half for a single row or column.  A frame
is the list of the calls that it makes.
-/

namespace AoclDlp.Gemm.F32Frames

open AoclDlp.Api.F32Gemm
open AoclDlp.Config.BlockSize
open AoclDlp.Foundations.Memory
open AoclDlp.Foundations.Rounding
open AoclDlp.Foundations.Span
open AoclDlp.Gemm.F32Kernel
open AoclDlp.Layout.Panel
open AoclDlp.Threading.TaskRange
open AoclDlp.Threading.WorkPartition

variable {Value : Type}

/-- The arguments of both F32 frames, with the processor flags that they
test. -/
structure FrameArgs (Value : Type) where
  ops : Operands
  k : Nat
  a : Nat → Value
  b : Nat → Value
  alpha : Value
  beta : Value
  blksz : DlpGemmBlockSize
  kernel : F32KernelInfo
  packers : Packers Value
  avx512 : Bool
  avx2fma3 : Bool

/-- A pointer with its row, column and panel strides. -/
structure Block (Value : Type) where
  use : Nat → Value
  rs : Nat
  cs : Nat
  ps : Nat

namespace FrameArgs

/-- The frames hand a single row or column to their GEMV half. -/
def UsesGemv (args : FrameArgs Value) : Prop :=
  (args.ops.m = 1 ∨ args.ops.n = 1) ∧
    (args.avx512 = true ∨ args.avx2fma3 = true)

instance (args : FrameArgs Value) : Decidable args.UsesGemv :=
  inferInstanceAs (Decidable (_ ∧ _))

/-- The tag of B behind the RD test. -/
def gemmTagB (args : FrameArgs Value) : MemoryTag :=
  if args.kernel.invokeRD then .unpacked else args.ops.mtagB

/-- The tag of A behind the RD test of the five-loop. -/
def gemmTagA (args : FrameArgs Value) : MemoryTag :=
  if args.kernel.invokeRD then .unpacked else args.ops.mtagA

/-- The pack-B kernel on `n` columns and `k` rows. -/
def packB (args : FrameArgs Value) (n k : Nat) (source : Nat → Value) :
    Nat → Value :=
  args.packers.panels args.blksz.NR n k args.ops.csB args.ops.rsB source

/-- The vector B of an `n == 1` problem. -/
def vectorB (args : FrameArgs Value) : Block Value :=
  if args.ops.mtagB = .reordered then ⟨args.b, 1, 1, 0⟩
  else if args.ops.rsB ≠ 1 then ⟨fun p => args.b (args.ops.rsB * p), 1, 1, 0⟩
  else ⟨args.b, args.ops.rsB, args.ops.csB, 0⟩

/-- The rows of A of an `n == 1` problem, packed where they are strided. -/
def rowsA (args : FrameArgs Value) (m : Nat) (a : Nat → Value) :
    Block Value :=
  if args.ops.csA ≠ 1 then
    ⟨args.packers.rows m args.k args.ops.rsA args.ops.csA a, args.k, 1, 1⟩
  else ⟨a, args.ops.rsA, args.ops.csA, 1⟩

/-- The call of an `n == 1` problem on `mc0` rows from `ic` on. -/
def gemvN1Call (args : FrameArgs Value) (ic mc0 : Nat) : KernelArgs Value :=
  let a := args.rowsA mc0 (advance args.a (ic * args.ops.rsA))
  let b := args.vectorB
  { m := mc0
    n := 1
    k := args.k
    a := a.use
    rsA := a.rs
    csA := a.cs
    psA := a.ps
    b := b.use
    rsB := b.rs
    csB := b.cs
    nSubUpdated := 0
    jcCurLoopRem := 0
    c := ic * args.ops.rsC
    rsC := args.ops.rsC
    csC := args.ops.csC
    alpha := args.alpha
    beta := args.beta
    postOpsAttr := ⟨ic, 0, true, true⟩ }

/-- The call of an `m == 1` problem on `nc0` columns from `jc` on. -/
def gemvM1Call (args : FrameArgs Value) (a b : Block Value)
    (jc nc0 nSubUpdated jcCurLoopRem : Nat) : KernelArgs Value where
  m := 1
  n := nc0
  k := args.k
  a := a.use
  rsA := a.rs
  csA := a.cs
  psA := a.ps
  b := b.use
  rsB := b.rs
  csB := b.cs
  nSubUpdated := nSubUpdated
  jcCurLoopRem := jcCurLoopRem
  c := jc * args.ops.csC
  rsC := args.ops.rsC
  csC := args.ops.csC
  alpha := args.alpha
  beta := args.beta
  postOpsAttr := ⟨0, jc, true, true⟩

/-! ## The tiny frame -/

/-- The vector A of an `m == 1` problem: the tiny frame copies it. -/
def tinyVectorA (args : FrameArgs Value) : Block Value :=
  if args.ops.csA ≠ 1 then ⟨fun p => args.a (args.ops.csA * p), 1, 1, 1⟩
  else ⟨args.a, args.ops.rsA, args.ops.csA, 1⟩

/-- `dlp_gemv_rowvar_tiny_f32f32f32of32`. -/
def dlpGemvRowvarTiny (args : FrameArgs Value) : KernelArgs Value :=
  let ops := args.ops
  if ops.n = 1 then args.gemvN1Call 0 ops.m
  else if ops.mtagB = .reordered then
    args.gemvM1Call args.tinyVectorA ⟨args.b, args.blksz.NR, 1, 0⟩ 0 ops.n 0 0
  else if ops.mtagB = .pack then
    args.gemvM1Call args.tinyVectorA
      ⟨args.packB ops.n args.k args.b, args.blksz.NR, 1, 0⟩ 0 ops.n
      (roundUp ops.n args.blksz.NR) 0
  else args.gemvM1Call args.tinyVectorA ⟨args.b, ops.rsB, ops.csB, 0⟩ 0 ops.n 0 0

/-- The B of the tiny GEMM. -/
def tinyB (args : FrameArgs Value) : Block Value :=
  let ops := args.ops
  if args.k = 1 ∧ ops.csB = 1 then ⟨args.b, ops.rsB, ops.csB, 0⟩
  else if args.gemmTagB = .reordered then
    ⟨args.b, args.blksz.NR, 1, args.k⟩
  else if args.gemmTagB = .pack ∧ ops.rsB = 1 then
    ⟨args.packB ops.n args.k args.b, args.blksz.NR, 1, args.k⟩
  else ⟨args.b, ops.rsB, ops.csB, ops.csB⟩

/-- The A of the tiny GEMM. -/
def tinyA (args : FrameArgs Value) : Block Value :=
  let ops := args.ops
  let MR := args.blksz.MR
  if args.k = 1 ∧ ops.csB = 1 then ⟨args.a, ops.rsA, ops.csA, MR * ops.rsA⟩
  else if ops.mtagA = .reordered then ⟨args.a, 1, MR, MR * args.k⟩
  else ⟨args.a, ops.rsA, ops.csA, MR * ops.rsA⟩

/-- A GEMM call on a tile. -/
def gemmCall (args : FrameArgs Value) (a b : Block Value)
    (row column depth : Piece) (beta : Value) (isLastK : Bool) :
    KernelArgs Value where
  m := row.width
  n := column.width
  k := depth.width
  a := a.use
  rsA := a.rs
  csA := a.cs
  psA := a.ps
  b := b.use
  rsB := b.rs
  csB := b.cs
  nSubUpdated := b.ps
  jcCurLoopRem := 0
  c := column.start * args.ops.csC + args.ops.rsC * row.start
  rsC := args.ops.rsC
  csC := args.ops.csC
  alpha := args.alpha
  beta := beta
  postOpsAttr :=
    ⟨row.start, column.start, decide (depth.start = 0), isLastK⟩

/-- `dlp_gemm_rowvar_tiny_f32f32f32of32`. -/
def dlpGemmRowvarTiny (args : FrameArgs Value) : KernelArgs Value :=
  if args.UsesGemv then args.dlpGemvRowvarTiny
  else
    args.gemmCall args.tinyA args.tinyB ⟨0, args.ops.m⟩ ⟨0, args.ops.n⟩
      ⟨0, args.k⟩ args.beta true

/-! ## The five-loop -/

/-- The `jc` steps over a column range. -/
def jcSteps (args : FrameArgs Value) (mtagB : MemoryTag)
    (range : Nat × Nat) : List JcStep :=
  if mtagB = .reordered then
    jcLoop args.ops.n args.blksz.NC args.blksz.NR range.2 range.2 range.1
  else
    (pcLoop range.2 args.blksz.NC range.2 range.1).map fun piece =>
      ⟨piece.start, piece.width, piece.start, 0, 0⟩

/-- The vector A of an `m == 1` problem: the five-loop packs it. -/
def vectorA (args : FrameArgs Value) : Block Value :=
  args.rowsA 1 args.a

/-- The panel that the `m == 1` loop packs, `KC` rows at a time. -/
def packedRow (args : FrameArgs Value) (jc nc0 : Nat) : Nat → Value :=
  let nSubUpdated := roundUp nc0 args.blksz.NR
  (pcLoop args.k args.blksz.KC args.k 0).foldl
    (fun buffer row =>
      copyBlock (nSubUpdated * row.width) (nSubUpdated * row.start) 0
        (args.packB nc0 row.width
          (advance args.b (args.ops.rsB * row.start + args.ops.csB * jc)))
        buffer)
    args.packers.fresh

/-- One step of the `m == 1` loop. -/
def gemvM1Step (args : FrameArgs Value) (step : JcStep) : KernelArgs Value :=
  let ops := args.ops
  if ops.mtagB = .reordered then
    args.gemvM1Call args.vectorA
      ⟨advance args.b (step.jcCurLoop * args.k), args.blksz.NR, 1, 0⟩ step.jc
      step.nc0 step.nSubUpdated step.jcCurLoopRem
  else if ops.mtagB = .pack then
    args.gemvM1Call args.vectorA
      ⟨args.packedRow step.jc step.nc0, args.blksz.NR, 1, 0⟩ step.jc step.nc0
      (roundUp step.nc0 args.blksz.NR) 0
  else
    args.gemvM1Call args.vectorA
      ⟨advance args.b (step.jc * ops.csB), ops.rsB, ops.csB, 0⟩ step.jc
      step.nc0 0 0

/-- `dlp_gemv_rowvar_f32f32f32of32` of one thread. -/
def dlpGemvRowvar (args : FrameArgs Value) (thread : DlpGemmThrinfo) :
    List (KernelArgs Value) :=
  let tasks := dlpGemmGenDlpTaskIds (some thread)
  if args.ops.n = 1 then
    let range := dlpThreadTaskRange (gemvTaskId thread tasks.2) args.ops.m
      args.blksz.MR false
    (pcLoop range.2 args.blksz.MC range.2 range.1).map fun row =>
      args.gemvN1Call row.start row.width
  else
    let range := dlpThreadTaskRange (gemvTaskId thread tasks.1) args.ops.n
      args.blksz.NR false
    (args.jcSteps args.ops.mtagB range).map args.gemvM1Step

/-- The panel that a thread's share of the pack kernel leaves. -/
def packedPanel (args : FrameArgs Value) (thread : DlpGemmThrinfo)
    (step : JcStep) (depth : Piece) : Nat → Value :=
  let range := dlpThreadTaskRange
    (dlpGemmGenDlpTaskIds (some thread)).2 step.nc0 args.blksz.NR false
  if range.1 < range.2 ∧ range.1 < step.jc + step.nc0 then
    copyBlock (roundUp (range.2 - range.1) args.blksz.NR * depth.width)
      (range.1 * depth.width) 0
      (args.packB (range.2 - range.1) depth.width
        (advance args.b (args.ops.rsB * depth.start +
          args.ops.csB * step.jc + args.ops.csB * range.1)))
      args.packers.fresh
  else args.packers.fresh

/-- The B of a `jc` and `pc` step. -/
def panelB (args : FrameArgs Value) (thread : DlpGemmThrinfo)
    (step : JcStep) (depth : Piece) : Block Value :=
  let ops := args.ops
  if args.gemmTagB = .reordered then
    ⟨advance args.b (step.jcCurLoop * args.k + step.nSubUpdated * depth.start +
      step.jcCurLoopRem * depth.width), args.blksz.NR, 1, depth.width⟩
  else if args.gemmTagB = .pack then
    ⟨args.packedPanel thread step depth, args.blksz.NR, 1, depth.width⟩
  else
    ⟨advance args.b (depth.start * ops.rsB + step.jc * ops.csB), ops.rsB,
      ops.csB, ops.csB⟩

/-- The A of a `pc` and `ic` step. -/
def blockA (args : FrameArgs Value) (depth row : Piece) : Block Value :=
  let ops := args.ops
  let MR := args.blksz.MR
  if args.gemmTagA = .reordered then
    ⟨advance args.a (depth.start * roundUp ops.m MR +
      depth.width * row.start), 1, MR, MR * depth.width⟩
  else if args.gemmTagA = .pack then
    ⟨args.packers.panels MR row.width depth.width ops.rsA ops.csA
      (advance args.a (ops.rsA * row.start + depth.start * ops.csA)), 1, MR,
      MR * depth.width⟩
  else
    ⟨advance args.a (ops.rsA * row.start + depth.start * ops.csA), ops.rsA,
      ops.csA, MR * ops.rsA⟩

/-- `dlp_gemm_rowvar_f32f32f32of32` of one thread. -/
def dlpGemmRowvar [OfNat Value 1] (args : FrameArgs Value)
    (thread : DlpGemmThrinfo) : List (KernelArgs Value) :=
  if args.UsesGemv then args.dlpGemvRowvar thread
  else
    let jcRange := gemmJcRange thread args.ops.n args.blksz.NR
    let icRange := gemmIcRange thread args.ops.m args.blksz.MR
    (args.jcSteps args.gemmTagB jcRange).flatMap fun step =>
      (pcLoop args.k args.blksz.KC args.k 0).flatMap fun depth =>
        (pcLoop icRange.2 args.blksz.MC icRange.2 icRange.1).map fun row =>
          args.gemmCall (args.blockA depth row)
            (args.panelB thread step depth) row ⟨step.jc, step.nc0⟩ depth
            (if depth.start = 0 then args.beta else 1)
            (decide (args.k ≤ depth.start + args.blksz.KC))

end FrameArgs

end AoclDlp.Gemm.F32Frames
