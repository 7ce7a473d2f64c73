import AoclDlp.Api.F32Gemm
import AoclDlp.Foundations.Tiling

/-!
# Calls of an F32 kernel

The F32 frames hand a kernel pointers, extents and strides, and the kernel
computes one output element from one row of A and one column of B.  Where it
looks for them depends on which of the generated kernels the handle holds: the
two GEMV kernels read their vectors with unit stride, the fused kernel of a `K`
of one walks B by columns and ignores its panel stride, and the others step
from panel to panel.

The arithmetic of a kernel and the pack kernels are parameters.  A pack kernel
is known by the slot at which it leaves an element.
-/

namespace AoclDlp.Gemm.F32Kernel

open AoclDlp.Api.F32Gemm
open AoclDlp.Config.BlockSize
open AoclDlp.Foundations.Memory
open AoclDlp.Foundations.Tiling

variable {Value : Type}

/-! ## Arguments -/

/-- The fields of `dlp_gemm_post_op_attr` that the F32 loops change. -/
structure DlpGemmPostOpAttr where
  postOpCI : Nat
  postOpCJ : Nat
  isFirstK : Bool
  isLastK : Bool
  deriving DecidableEq, Repr

/-- The memory behind a pointer that moved on. -/
def advance (pointer : Nat → Value) (offset : Nat) : Nat → Value :=
  fun address => pointer (offset + address)

@[simp]
theorem advance_apply (pointer : Nat → Value) (offset address : Nat) :
    advance pointer offset address = pointer (offset + address) :=
  rfl

/-- The arguments of `dlp_execute_kernel`; `c` is an offset in the output. -/
structure KernelArgs (Value : Type) where
  m : Nat
  n : Nat
  k : Nat
  a : Nat → Value
  rsA : Nat
  csA : Nat
  psA : Nat
  b : Nat → Value
  rsB : Nat
  csB : Nat
  nSubUpdated : Nat
  jcCurLoopRem : Nat
  c : Nat
  rsC : Nat
  csC : Nat
  alpha : Value
  beta : Value
  postOpsAttr : DlpGemmPostOpAttr

/-! ## Where a kernel looks -/

/-- The addresses that a kernel resolves: the factors of an output element,
relative to the pointers of the call, and the element. -/
structure Access where
  depth : Nat
  left : Nat → Nat → Nat
  right : Nat → Nat → Nat
  result : Nat → Nat → Nat

section Kernels

variable (kernel : F32KernelInfo) (mtagB : MemoryTag)

/-- The `m == 1` kernel: on packed panels it steps over blocks of `KC` rows by
`n_sub_updated`. -/
def gemvM1Access (args : KernelArgs Value) : Access where
  depth := args.k
  left _ p := p
  right p j :=
    if mtagB = .reordered ∨ mtagB = .pack then
      let kc := kernel.info.kc
      let nr := kernel.info.dims.nr
      let incK := p / kc * kc
      let incN := j / nr * nr
      let psB := if p / kc < args.k / kc then kc else args.k % kc
      args.jcCurLoopRem * psB + args.nSubUpdated * incK + incN * psB +
        (nr * (p - incK) + (j - incN))
    else args.rsB * p + j
  result _ j := args.c + j

/-- The `n == 1` kernel. -/
def gemvN1Access (args : KernelArgs Value) : Access where
  depth := args.k
  left i p := args.rsA * i + args.csA * p
  right p _ := p
  result i _ := args.c + args.rsC * i

/-- The fused kernel of a `K` of one. -/
def gemmK1Access (args : KernelArgs Value) : Access where
  depth := 1
  left i _ :=
    args.psA * (i / kernel.info.dims.mr) + args.rsA * (i % kernel.info.dims.mr)
  right _ j := j
  result i j := args.c + (args.rsC * i + args.csC * j)

/-- The kernels that step from panel to panel; `dlp_execute_kernel` passes them
`n_sub_updated` as the panel stride of B, and the RD kernels recompute the panel
stride of A from its row stride. -/
def gemmAccess (args : KernelArgs Value) : Access where
  depth := args.k
  left i p :=
    (if kernel.invokeRD then args.rsA * i
      else args.psA * (i / kernel.info.dims.mr) +
        args.rsA * (i % kernel.info.dims.mr)) + args.csA * p
  right p j :=
    let jr := j / kernel.info.dims.nr * kernel.info.dims.nr
    args.nSubUpdated * jr + (args.rsB * p + args.csB * (j - jr))
  result i j := args.c + (args.rsC * i + args.csC * j)

/-- The kernel that `dlp_execute_kernel` dispatches to. -/
def access (args : KernelArgs Value) : Access :=
  if kernel.info.dims.mr = 1 ∧ args.m = 1 then
    gemvM1Access kernel mtagB args
  else if kernel.info.dims.nr = 1 ∧ args.n = 1 then gemvN1Access args
  else if kernel.info.kc = 1 ∧ kernel.invokeRD = false then
    gemmK1Access kernel args
  else gemmAccess kernel args

/-- What a kernel computes one output element from. -/
@[ext]
structure ElementUpdate (Value : Type) where
  left : List Value
  right : List Value
  address : Nat
  alpha : Value
  beta : Value
  postOpsAttr : DlpGemmPostOpAttr

/-- The update of element `(i, j)` of a call. -/
def elementUpdate (args : KernelArgs Value) (i j : Nat) :
    ElementUpdate Value where
  left := (List.range (access kernel mtagB args).depth).map fun p =>
    args.a ((access kernel mtagB args).left i p)
  right := (List.range (access kernel mtagB args).depth).map fun p =>
    args.b ((access kernel mtagB args).right p j)
  address := (access kernel mtagB args).result i j
  alpha := args.alpha
  beta := args.beta
  postOpsAttr :=
    { args.postOpsAttr with
      postOpCI := args.postOpsAttr.postOpCI + i
      postOpCJ := args.postOpsAttr.postOpCJ + j }

/-- `dlp_execute_kernel`: the updates of a call. -/
def dlpExecuteKernel (args : KernelArgs Value) : List (ElementUpdate Value) :=
  tileItems (elementUpdate kernel mtagB args) ⟨0, args.m⟩ ⟨0, args.n⟩

/-- The updates of several calls. -/
def executeAll (calls : List (KernelArgs Value)) :
    List (ElementUpdate Value) :=
  calls.flatMap (dlpExecuteKernel kernel mtagB)

end Kernels

/-- The output that updates leave, for the arithmetic of a micro-kernel. -/
def outputAfter (micro : ElementUpdate Value → Value → Value)
    (updates : List (ElementUpdate Value)) (c : Nat → Value) : Nat → Value :=
  changeAll (updates.map fun update => (update.address, micro update)) c

/-! ## Pack kernels -/

/-- Where panels of a fixed width keep an element. -/
def panelSlot (width depth p x : Nat) : Nat :=
  width * depth * (x / width) + (width * p + x % width)

/-- The pack kernels: panels of a fixed width for B and for A, contiguous rows
for the A of a GEMV, and what a fresh buffer holds. -/
structure Packers (Value : Type) where
  panels : Nat → Nat → Nat → Nat → Nat → (Nat → Value) → Nat → Value
  rows : Nat → Nat → Nat → Nat → (Nat → Value) → Nat → Value
  fresh : Nat → Value
  panels_slot : ∀ {width extent depth across along x p : Nat}
    (source : Nat → Value), 0 < width → x < extent → p < depth →
      panels width extent depth across along source
          (panelSlot width depth p x) =
        source (across * x + along * p)
  rows_slot : ∀ {m k rs cs i p : Nat} (source : Nat → Value),
    i < m → p < k →
      rows m k rs cs source (k * i + p) = source (rs * i + cs * p)

/-- Packers that gather every slot from its element. -/
def gatheringPackers (fresh : Nat → Value) : Packers Value where
  panels width _ depth across along source slot :=
    source (across * (slot / (width * depth) * width + slot % width) +
      along * (slot % (width * depth) / width))
  rows _ k rs cs source slot := source (rs * (slot / k) + cs * (slot % k))
  fresh := fresh
  panels_slot := by
    intro width extent depth across along x p source positive _ row
    unfold panelSlot
    have column : x % width < width := Nat.mod_lt x positive
    have inPanel : width * p + x % width < width * depth :=
      calc
        width * p + x % width < width * p + width :=
          Nat.add_lt_add_left column _
        _ = width * (p + 1) := (Nat.mul_succ width p).symm
        _ ≤ width * depth := Nat.mul_le_mul_left width row
    have panel : 0 < width * depth := (Nat.zero_le _).trans_lt inPanel
    have quotient : (width * depth * (x / width) +
        (width * p + x % width)) / (width * depth) = x / width := by
      rw [Nat.mul_add_div panel, Nat.div_eq_of_lt inPanel, Nat.add_zero]
    have offset : (width * depth * (x / width) +
        (width * p + x % width)) % (width * depth) =
          width * p + x % width := by
      rw [Nat.mul_add_mod, Nat.mod_eq_of_lt inPanel]
    have within : (width * depth * (x / width) +
        (width * p + x % width)) % width = x % width := by
      rw [Nat.mul_assoc, Nat.mul_add_mod, Nat.mul_add_mod, Nat.mod_mod]
    rw [quotient, offset, within, Nat.mul_add_div positive,
      Nat.div_eq_of_lt column, Nat.add_zero, Nat.mul_comm (x / width),
      Nat.div_add_mod]
  rows_slot := by
    intro m k rs cs i p source _ row
    have positive : 0 < k := (Nat.zero_le p).trans_lt row
    rw [Nat.mul_add_div positive, Nat.div_eq_of_lt row, Nat.add_zero,
      Nat.mul_add_mod, Nat.mod_eq_of_lt row]

end AoclDlp.Gemm.F32Kernel
