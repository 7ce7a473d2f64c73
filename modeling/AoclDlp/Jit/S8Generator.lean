import AoclDlp.DecisionEngine.Scaling
import AoclDlp.Foundations.Avx512

/-!
# The generator of the s8s8s32 micro-kernel

`jitGEMMS8` emits the code of one tile of `MR` rows and `NR` columns, or of a
masked tile of fewer than 16 columns.  The int8 elements of A are offset by 128
for the unsigned dot product, accumulated quad by quad over K, corrected by the
column sums of B, scaled and stored; with `mLoop` the code runs over many row
blocks.

The emission is translated for int32 output without post-ops.  General
registers are the parameter and the temporaries of the stack frame and `rax`.
-/

namespace AoclDlp.Jit.S8Generator

open AoclDlp.DecisionEngine.Scaling
open AoclDlp.Foundations.Assembly
open AoclDlp.Foundations.Avx512

/-! ## Registers, parameters and labels -/

/-- The temporaries of the stack frame, and `rax`. -/
inductive Reg64 where
  | t (index : Fin 12)
  | rax
  deriving DecidableEq, Repr

abbrev regTmpAptr : Reg64 := .t 0
abbrev regBptr : Reg64 := .t 1
abbrev regTmpCptr : Reg64 := .t 2
abbrev regRsA : Reg64 := .t 3
abbrev regCsA : Reg64 := .t 4
abbrev regRsB : Reg64 := .t 5
abbrev regRsC : Reg64 := .t 6
abbrev regKIter : Reg64 := .t 7
abbrev regCPtr : Reg64 := .t 8
abbrev regAPtr : Reg64 := .t 9
abbrev regTmp1 : Reg64 := .t 10
abbrev regTmp2 : Reg64 := .t 11
abbrev regTmp3 : Reg64 := regTmpAptr
abbrev regMiter : Reg64 := .rax

/-- The fields of `gemmParams` that the code reads or writes. -/
inductive GemmParams where
  | a
  | b
  | c
  | rsA
  | csA
  | psA
  | rsB
  | rsC
  | alpha
  | beta
  | mIter
  | kIterBP
  | kLeft
  | kLeftIter
  | kLeftRem
  | kLeftmask
  | maskS32
  | isLastK
  | bColSumVec
  | bSumOffset
  | postOpCI
  deriving DecidableEq, Repr

/-- The labels of the generated code. -/
inductive Label where
  | bloop6x64I
  | bloopKiter
  | bconsidKleft
  | bconsidKleftIter
  | bloopKleftIter
  | bconsidKleftRem
  | bpostaccum
  | bypassComp
  | scaling
  | betaopEnd
  | storec
  | storeopEnd
  | postStorec
  deriving DecidableEq, Repr

/-- Instructions over these registers and parameters. -/
abbrev Code := Instr Reg64 GemmParams

/-- Items of the generated code. -/
abbrev Emitted := List (Item Code Cond Label)

/-- Emit instructions. -/
def emit (code : List Code) : Emitted :=
  code.map .instr

/-- `ptr[base + disp]`. -/
def ptr (base : Reg64) (disp : Nat) : Address Reg64 :=
  ⟨some base, none, disp⟩

/-- `ptr[base + index * scale]`. -/
def ptrScaled (base index : Reg64) (scale : Nat) : Address Reg64 :=
  ⟨some base, some (index, scale), 0⟩

/-- `generatorParams`, as far as this generator reads them. -/
structure GeneratorParams where
  MR : Nat
  NR : Nat
  kUnroll : Nat
  mLoop : Bool
  useMask : Bool
  alphaScalingType : ScalingType
  betaScalingType : ScalingType
  deriving DecidableEq, Repr

/-! ## Register allocation -/

/-- `Traits::numRegs`. -/
def numRegs : Nat := 32

/-- `Traits::regBytes`. -/
def regBytes : Nat := 64

/-- `RegType(aRegIdx)`, the first register. -/
def zmmA : Nat := 0

/-- `mask_regs[0]`. -/
def kLeftMaskReg : Nat := 1

/-- `mask_regs[1]`. -/
def maskS32Reg : Nat := 2

namespace GeneratorParams

variable (params : GeneratorParams)

/-- Full vector registers of a row of B. -/
def bFullReg : Nat := params.NR / (regBytes / 4)

/-- Masked vector registers of a row of B. -/
def bMaskReg : Nat := if params.useMask then 1 else 0

/-- Vector registers of a row of B. -/
def bReg : Nat := params.bFullReg + params.bMaskReg

/-- Accumulators. -/
def cReg : Nat := params.MR * params.bReg

/-- Registers left for A by the allocation. -/
def aReg : Int := numRegs - params.cReg - 1

/-- The first accumulator. -/
def cRegIdx : Int := numRegs - params.cReg

/-- The first register of B. -/
def bRegIdx : Int := params.cRegIdx - params.bReg

/-- The register of the 128 offset. -/
def vec128RegIdx : Int := params.bRegIdx - 1

/-- `checkValidGemmParams` and the check of `allocateReg`. -/
def accepted : Bool :=
  decide (0 < params.MR) && decide (0 < params.kUnroll) &&
    decide (1 ≤ params.aReg)

/-- `RegType(vec128RegIdx)`. -/
def zmm128 : Nat := params.vec128RegIdx.toNat

/-- `RegType(bRegIdx + j)`. -/
def zmmB (j : Nat) : Nat := (params.bRegIdx + j).toNat

/-- `RegType(cRegIdx + t)`. -/
def zmmC (t : Nat) : Nat := (params.cRegIdx + t).toNat

/-! ## Emission -/

/-- `initializeParameters`. -/
def initializeParameters : List Code :=
  (if params.mLoop then
    [.mov regAPtr (.field .a), .mov regMiter (.field .mIter)]
  else [.mov regTmpAptr (.field .a)]) ++
  [.mov regCPtr (.field .c), .mov regRsA (.field .rsA),
    .mov regCsA (.field .csA), .mov regRsB (.field .rsB),
    .mov regRsC (.field .rsC), .lea regRsC ⟨none, some (regRsC, 4), 0⟩,
    .mov regTmpCptr (.reg regCPtr), .mov regTmp2 (.field .postOpCI),
    .kmovw kLeftMaskReg (.field .kLeftmask)] ++
  (if params.useMask then [.kmovw maskS32Reg (.field .maskS32)] else [])

/-- `initializeRegisters`. -/
def initializeRegisters : List Code :=
  .vpxor .zmm (params.zmmC 0) (params.zmmC 0) (params.zmmC 0) ::
    (List.range (params.cReg - 1)).map fun i =>
      .vmovdqa .zmm (params.zmmC (i + 1)) (params.zmmC 0)

/-- `loadBValues`. -/
def loadBValues : List Code :=
  ((List.range params.bFullReg).map fun i =>
    .vmovdqu 32 .zmm (params.zmmB i) none (ptr regBptr (i * regBytes))) ++
  if params.useMask then
    [.vmovdqu 8 .zmm (params.zmmB params.bFullReg) none
      (ptr regBptr (params.bFullReg * regBytes))]
  else []

/-- The load of the four elements of A of one row. -/
def broadcastA (isVNNIrem : Bool) : List Code :=
  if isVNNIrem then
    [.vmovdqu 8 .ymm zmmA (some kLeftMaskReg) (ptr regTmpAptr 0),
      .vpbroadcastd zmmA zmmA]
  else [.vpbroadcastdLoad zmmA (ptr regTmpAptr 0)]

/-- One row of `BroadcastAVNNIB`. -/
def broadcastRow (isVNNIrem : Bool) (i : Nat) : List Code :=
  broadcastA isVNNIrem ++
    [.vpaddb zmmA zmmA params.zmm128,
      .add regTmpAptr (.reg regRsA)] ++
    (List.range params.bReg).map fun j =>
      .vpdpbusd (params.zmmC (i * params.bReg + j)) zmmA
        (params.zmmB j)

/-- `BroadcastAVNNIB`. -/
def broadcastAVNNIB (isVNNIrem : Bool) : List Code :=
  (List.range params.MR).flatMap (params.broadcastRow isVNNIrem)

/-- One round of `kLoop`. -/
def kStep (isVNNIrem : Bool) : List Code :=
  .mov regTmp1 (.reg regTmpAptr) ::
    (params.loadBValues ++ .add regBptr (.reg regRsB) ::
      (params.broadcastAVNNIB isVNNIrem ++
        [.lea regTmpAptr (ptrScaled regTmp1 regCsA 1)]))

/-- `kLoop`. -/
def kLoop (unroll : Nat) (isVNNIrem : Bool) : List Code :=
  (List.range unroll).flatMap fun _ => params.kStep isVNNIrem

/-- `loadBSumValues`. -/
def loadBSumValues : List Code :=
  [.mov regTmp1 (.field .bColSumVec), .mov regTmp3 (.field .bSumOffset),
    .lea regTmp1 (ptrScaled regTmp1 regTmp3 4)] ++
  ((List.range params.bFullReg).map fun i =>
    .vmovdqu 8 .zmm (params.zmmB i) none (ptr regTmp1 (i * regBytes))) ++
  if params.useMask then
    [.vmovdqu 8 .zmm (params.zmmB params.bFullReg) none
      (ptr regTmp1 (params.bFullReg * regBytes))]
  else []

/-- The subtractions of `conversionCompensation`. -/
def subtractSums : List Code :=
  (List.range params.bReg).flatMap fun j =>
    (List.range params.MR).map fun i =>
      .vpsubd (params.zmmC (i * params.bReg + j))
        (params.zmmC (i * params.bReg + j)) (params.zmmB j)

/-- `conversionCompensation`. -/
def conversionCompensation : Emitted :=
  emit [.mov regTmp1 (.field .isLastK), .test regTmp1 regTmp1] ++
    (.jcc .e .bypassComp ::
      (emit (params.loadBSumValues ++ params.subtractSums) ++
        [.label .bypassComp]))

/-- `scaleAlpha`. -/
def scaleAlpha : List Code :=
  [.mov regTmp1 (.field .alpha),
    .vpbroadcastdLoad zmmA (ptr regTmp1 0)] ++
  (List.range params.cReg).map fun t =>
    .vpmulld (params.zmmC t) (params.zmmC t) zmmA

/-- One register of a row of C in `scaleBeta`. -/
def betaRegister (mask : Option Nat) (i j : Nat) : List Code :=
  [.vmovdqu 32 .zmm (params.zmmB j) mask (ptr regTmpCptr (j * regBytes)),
    .vpmulld (params.zmmB j) (params.zmmB j) zmmA,
    .vpaddd (params.zmmC (i * params.bReg + j))
      (params.zmmC (i * params.bReg + j)) (params.zmmB j)]

/-- One row of `scaleBeta`. -/
def betaRow (i : Nat) : List Code :=
  ((List.range params.bFullReg).flatMap (params.betaRegister none i)) ++
  (if params.useMask then
    params.betaRegister (some maskS32Reg) i params.bFullReg
  else []) ++
  [.add regTmpCptr (.reg regRsC)]

/-- `scaleBeta` for int32 output. -/
def scaleBeta : List Code :=
  [.mov regTmp1 (.field .beta),
    .vpbroadcastdLoad zmmA (ptr regTmp1 0),
    .mov regTmpCptr (.reg regCPtr)] ++
  (List.range params.MR).flatMap params.betaRow

/-- The mask of a register of a row: the last one of a masked tile. -/
def finalMask (column : Nat) : Option Nat :=
  if params.useMask && decide (column + 1 = params.bReg) then
    some maskS32Reg
  else none

/-- One row of `emitS32ToS32`. -/
def storeRow (row : Nat) : List Code :=
  ((List.range params.bReg).map fun column =>
    .vmovdquStore 32 .zmm (ptr regTmpCptr (column * regBytes))
      (params.finalMask column) (params.zmmC (row * params.bReg + column))) ++
  [.add regTmpCptr (.reg regRsC)]

/-- `storeResult` and `storeResultS32` for int32 output. -/
def storeResult : List Code :=
  .mov regTmpCptr (.reg regCPtr) ::
    (List.range params.MR).flatMap params.storeRow

/-- The part of a row block that accumulates over K. -/
def accumulate : Emitted :=
  emit [.mov regTmp1 (.imm 128),
    .vpxor .zmm params.zmm128 params.zmm128 params.zmm128,
    .vpbroadcastb params.zmm128 regTmp1,
    .mov regKIter (.field .kIterBP), .test regKIter regKIter] ++
  (.jcc .e .bconsidKleft ::
    ((.label .bloopKiter ::
      (emit (params.kLoop params.kUnroll false ++ [.sub regKIter (.imm 1)]) ++
        [.jcc .ne .bloopKiter])) ++
      [.label .bconsidKleft]))

/-- The tail of K. -/
def accumulateTail : Emitted :=
  (if params.kUnroll = 1 then
    emit [.mov regKIter (.field .kLeft), .test regKIter regKIter]
  else
    .label .bconsidKleftIter ::
      (emit [.mov regKIter (.field .kLeftIter), .test regKIter regKIter] ++
        (.jcc .e .bconsidKleftRem ::
          ((.label .bloopKleftIter ::
            (emit (params.kLoop 1 false ++ [.sub regKIter (.imm 1)]) ++
              [.jcc .ne .bloopKleftIter])) ++
            [.label .bconsidKleftRem]))) ++
      emit [.mov regKIter (.field .kLeftRem), .test regKIter regKIter]) ++
  (.jcc .e .bpostaccum ::
    (emit (params.kLoop 1 true) ++ [.label .bpostaccum]))

/-- The bits of `moveCPtr`: `scale` is the power of two that `left`
counts. -/
def moveCPtrFrom : Nat → Nat → Nat → List Code
  | 0, _, _ => []
  | fuel + 1, left, shift =>
      if left = 0 then []
      else
        (if left % 2 = 1 then
          if 2 ^ shift ≤ 8 then
            [.lea regCPtr (ptrScaled regCPtr regRsC (2 ^ shift))]
          else
            [.mov regTmp1 (.reg regRsC), .shl regTmp1 shift,
              .add regCPtr (.reg regTmp1)]
        else []) ++ moveCPtrFrom fuel (left / 2) (shift + 1)

/-- `moveCPtr`. -/
def moveCPtr : List Code :=
  moveCPtrFrom params.MR params.MR 0

/-- The code of a row block up to its store. -/
def rowBlock : Emitted :=
  emit (.mov regBptr (.field .b) :: params.initializeRegisters) ++
  (if params.alphaScalingType = .zero then []
  else
    params.accumulate ++ params.accumulateTail ++
      params.conversionCompensation ++ [.label .scaling] ++
      emit (if params.alphaScalingType = .one then [] else params.scaleAlpha)) ++
  (if params.betaScalingType = .zero then []
  else emit params.scaleBeta ++ [.label .betaopEnd]) ++
  emit [.mov regTmp1 (.field .isLastK), .test regTmp1 regTmp1] ++
  (.jcc .e .storec :: ([] ++ [.label .storec])) ++
  emit params.storeResult ++ [.label .storeopEnd, .label .postStorec]

/-- The end of a row block under `mLoop`. -/
def nextRowBlock : List Code :=
  params.moveCPtr ++
  [.mov regTmpAptr (.reg regAPtr), .mov regTmp1 (.field .psA),
    .lea regTmpAptr (ptrScaled regTmpAptr regTmp1 1),
    .mov regAPtr (.reg regTmpAptr), .lea regTmp2 (ptr regTmp2 params.MR),
    .setField .postOpCI regTmp2, .sub regMiter (.imm 1)]

/-- `generateIrLoop`. -/
def generateIrLoop : Emitted :=
  (if params.mLoop then
    .label .bloop6x64I ::
      ((emit [.mov regTmpAptr (.reg regAPtr)] ++ params.rowBlock ++
        emit params.nextRowBlock) ++
        [.jcc .ne .bloop6x64I])
  else params.rowBlock) ++
  emit [.vzeroupper]

/-- `generateKernel`; `none` for a rejected configuration. -/
def generateKernel : Option Emitted :=
  if params.accepted then
    some (emit params.initializeParameters ++ params.generateIrLoop)
  else none

end GeneratorParams

end AoclDlp.Jit.S8Generator
