import AoclDlp.Foundations.Shuffles
import AoclDlp.Jit.S8Generator
import Mathlib.Data.Fin.VecNotation

/-!
# The generator of the row-major int8 pack kernel

`jitPackBINT8` emits the code that packs panels of `NR` columns of a row-major
int8 B: four consecutive rows of K are interleaved into one doubleword per
column, rows behind K are zero, and with `accColSum` the column sums, times
128, are added to memory.  The masked kernel packs fewer than 16 columns.
-/

namespace AoclDlp.Jit.PackBGenerator

open AoclDlp.Foundations.Assembly
open AoclDlp.Foundations.Avx512
open AoclDlp.Foundations.Lanes
open AoclDlp.Foundations.Shuffles
open AoclDlp.Jit.S8Generator (Reg64 ptr regBytes)

/-! ## Registers, parameters and labels -/

local instance lanes_neZero : NeZero 4 := ⟨by decide⟩

local instance temporaries_neZero : NeZero 12 := ⟨by decide⟩

local instance quadwords_neZero : NeZero 16 := ⟨by decide⟩

abbrev regSrc : Reg64 := .t 0
abbrev regDst : Reg64 := .t 1
abbrev regK : Reg64 := .t 2
abbrev regLdbBytes : Reg64 := .t 3
abbrev regDstPanelStride : Reg64 := .t 4
abbrev regSrcEnd : Reg64 := .t 5
abbrev regSrcBase : Reg64 := .t 6
abbrev regDstBase : Reg64 := .t 7
abbrev regSrcRow : Reg64 := .t 8
abbrev regDstRow : Reg64 := .t 9
abbrev regKFull : Reg64 := .t 10
abbrev regKr : Reg64 := .t 11
abbrev regColSum : Reg64 := .rax

/-- The fields of `packBParams` that the int8 kernels read or write. -/
inductive PackBParams where
  | src
  | dst
  | k
  | rsSrc
  | csSrc
  | rsDst
  | csDst
  | nFullPiecesLimit
  | nPartial
  | nFringeMaskPerBlock
  | colSum
  deriving DecidableEq, Repr

/-- The labels of the generated code. -/
inductive Label where
  | krLoop
  | krDone
  | noKtail
  | rem1
  | rem2
  | jcLoop
  | jcDone
  | selectorsEnd
  deriving DecidableEq, Repr

/-- Instructions over these registers and parameters. -/
abbrev Code := Instr Reg64 PackBParams

/-- Items of the generated code. -/
abbrev Emitted := List (Item Code Cond Label)

/-- Emit instructions. -/
def emit (code : List Code) : Emitted :=
  code.map .instr

/-- `packBGeneratorParams`, as far as the int8 generators read them. -/
structure PackBGeneratorParams where
  NR : Nat
  useMask : Bool
  nLoop : Bool
  accColSum : Bool
  deriving DecidableEq, Repr

/-- `BLOCK_N`. -/
def blockN : Nat := 16

/-- `K_FACTOR`. -/
def kFactor : Nat := 4

/-- `COL_SUM_SHIFT`. -/
def colSumShift : Nat := 7

/-- `MASK_LT16`. -/
def maskLt16 : Nat := 1

abbrev xmmZero : Nat := 0
abbrev xmmA : Nat := 1
abbrev xmmB : Nat := 2
abbrev xmmC : Nat := 3
abbrev xmmD : Nat := 4
abbrev xmmAblo : Nat := 5
abbrev xmmCdlo : Nat := 6
abbrev zmmCvt : Nat := 7
abbrev zmmAcc0 : Nat := 8
abbrev zmmSel1 : Nat := 16
abbrev zmmSel11 : Nat := 17
abbrev zmmSel2 : Nat := 18
abbrev zmmSel21 : Nat := 19
abbrev zmmA64 : Nat := 20
abbrev zmmB64 : Nat := 21
abbrev zmmC64 : Nat := 22
abbrev zmmD64 : Nat := 23
abbrev zmmT0 : Nat := 24
abbrev zmmT1 : Nat := 25
abbrev zmmP0 : Nat := 26
abbrev zmmP1 : Nat := 27
abbrev zmmP2 : Nat := 28
abbrev zmmP3 : Nat := 29
abbrev zmmS0 : Nat := 30
abbrev zmmS1 : Nat := 31

/-- `selector1`. -/
def selector1 : Fin 8 → Fin 16 :=
  ![0x0, 0x1, 0x8, 0x9, 0x2, 0x3, 0xA, 0xB]

/-- `selector1_1`. -/
def selector11 : Fin 8 → Fin 16 :=
  ![0x4, 0x5, 0xC, 0xD, 0x6, 0x7, 0xE, 0xF]

/-- `selector2`. -/
def selector2 : Fin 8 → Fin 16 :=
  ![0x0, 0x1, 0x2, 0x3, 0x8, 0x9, 0xA, 0xB]

/-- `selector2_1`. -/
def selector21 : Fin 8 → Fin 16 :=
  ![0x4, 0x5, 0x6, 0x7, 0xC, 0xD, 0xE, 0xF]

theorem quadword_lt (index : Fin 64) : index.val / 8 < 8 := by
  omega

/-- The quadwords of a selector, as a register. -/
def selectorZmm (selector : Fin 8 → Fin 16) : Zmm :=
  fun index =>
    if index.val % 8 = 0 then
      BitVec.ofNat 8 (selector ⟨index.val / 8, quadword_lt index⟩).val
    else 0

/-! ## One quad of rows -/

/-- The unpacks and inserts of `interleaveKQuad`. -/
def unpack16 : List Shuffle :=
  [.unpackBytes false .xmm xmmAblo xmmA xmmB,
    .unpackBytes true .xmm xmmA xmmA xmmB,
    .unpackBytes false .xmm xmmCdlo xmmC xmmD,
    .unpackBytes true .xmm xmmC xmmC xmmD,
    .unpackWords false .xmm xmmB xmmAblo xmmCdlo,
    .unpackWords true .xmm xmmAblo xmmAblo xmmCdlo,
    .unpackWords false .xmm xmmD xmmA xmmC,
    .unpackWords true .xmm xmmCdlo xmmA xmmC,
    .insert xmmB xmmB xmmAblo 1,
    .insert xmmB xmmB xmmD 2,
    .insert xmmB xmmB xmmCdlo 3]

/-- The unpacks and permutes of `interleaveKQuad64`. -/
def unpack64 : List Shuffle :=
  [.unpackBytes false .zmm zmmT0 zmmA64 zmmB64,
    .unpackBytes true .zmm zmmA64 zmmA64 zmmB64,
    .unpackBytes false .zmm zmmT1 zmmC64 zmmD64,
    .unpackBytes true .zmm zmmC64 zmmC64 zmmD64,
    .unpackWords false .zmm zmmB64 zmmT0 zmmT1,
    .unpackWords true .zmm zmmT0 zmmT0 zmmT1,
    .unpackWords false .zmm zmmD64 zmmA64 zmmC64,
    .unpackWords true .zmm zmmT1 zmmA64 zmmC64,
    .move .zmm zmmP0 zmmB64,
    .permute zmmP0 zmmSel1 selector1 zmmT0,
    .move .zmm zmmP1 zmmD64,
    .permute zmmP1 zmmSel1 selector1 zmmT1,
    .move .zmm zmmP2 zmmB64,
    .permute zmmP2 zmmSel11 selector11 zmmT0,
    .move .zmm zmmP3 zmmD64,
    .permute zmmP3 zmmSel11 selector11 zmmT1,
    .move .zmm zmmS0 zmmP0,
    .permute zmmS0 zmmSel2 selector2 zmmP1,
    .move .zmm zmmS1 zmmP2,
    .permute zmmS1 zmmSel2 selector2 zmmP3,
    .move .zmm zmmA64 zmmP0,
    .permute zmmA64 zmmSel21 selector21 zmmP1,
    .move .zmm zmmB64 zmmP2,
    .permute zmmB64 zmmSel21 selector21 zmmP3]

/-- The address of row `i` of a quad. -/
def rowAddress (i srcOff : Nat) : Address Reg64 :=
  match i with
  | 0 => ⟨some regSrcRow, none, srcOff⟩
  | 1 => ⟨some regSrcRow, some (regLdbBytes, 1), srcOff⟩
  | 2 => ⟨some regSrcRow, some (regLdbBytes, 2), srcOff⟩
  | _ => ⟨some regSrcRow, some (regSrc, 1), srcOff⟩

namespace PackBGeneratorParams

variable (params : PackBGeneratorParams)

/-- `numBlocks`. -/
def numBlocks : Nat := params.NR / blockN

/-- `useZmm64_`. -/
def useZmm64 : Bool := !params.useMask && decide (4 ≤ params.numBlocks)

/-- `allocateReg`. -/
def accepted : Bool :=
  decide (0 < params.NR) &&
    !(params.accColSum &&
      decide ((zmmSel1 - zmmAcc0) * blockN < params.NR)) &&
    decide (params.NR % blockN = 0) &&
    !(params.useMask && decide (params.NR ≠ blockN))

/-- `loadRow16`. -/
def loadRow16 (dst : Nat) (address : Address Reg64) (live : Bool) : Code :=
  if live then
    .vmovdqu 8 .xmm dst (if params.useMask then some maskLt16 else none)
      address
  else .vmovdqa .xmm dst xmmZero

/-- `accXmm16`. -/
def accXmm16 (bj row : Nat) (live : Bool) : List Code :=
  if live then
    [.vpmovsxbd zmmCvt row, .vpaddd (zmmAcc0 + bj) (zmmAcc0 + bj) zmmCvt]
  else []

/-- The body of the 16-column loop of `interleaveKQuad`. -/
def interleave16 (nLiveRows bj : Nat) : List Code :=
  ((List.range 4).map fun i =>
    params.loadRow16 (xmmA + i) (rowAddress i (bj * blockN))
      (decide (i < nLiveRows))) ++
  (if params.accColSum then
    (List.range 4).flatMap fun i =>
      accXmm16 bj (xmmA + i) (decide (i < nLiveRows))
  else []) ++
  unpack16.map Shuffle.instr ++
  [.vmovdquStore 64 .zmm (ptr regDstRow (bj * regBytes)) none xmmB]

/-- `loadRow64`. -/
def loadRow64 (dst : Nat) (address : Address Reg64) (live : Bool) : Code :=
  if live then .vmovdqu 64 .zmm dst none address
  else .vmovdqa .zmm dst xmmZero

/-- One 128-bit lane of a row in `accZmm64`. -/
def accLane (bj row lane : Nat) : List Code :=
  (if lane = 0 then [.vpmovsxbd zmmCvt row]
  else
    [.vextracti32x4 zmmCvt row (Fin.ofNat 4 lane),
      .vpmovsxbd zmmCvt zmmCvt]) ++
  [.vpaddd (zmmAcc0 + bj + lane) (zmmAcc0 + bj + lane) zmmCvt]

/-- `accRow` of `accZmm64`. -/
def accRow (bj row : Nat) (live : Bool) : List Code :=
  if live then (List.range 4).flatMap (accLane bj row) else []

/-- `interleaveKQuad64`. -/
def interleaveKQuad64 (nLiveRows bj : Nat) : List Code :=
  ((List.range 4).map fun i =>
    loadRow64 (zmmA64 + i) (rowAddress i (bj * blockN))
      (decide (i < nLiveRows))) ++
  (if params.accColSum then
    (List.range 4).flatMap fun i =>
      accRow bj (zmmA64 + i) (decide (i < nLiveRows))
  else []) ++
  unpack64.map Shuffle.instr ++
  [.vmovdquStore 64 .zmm (ptr regDstRow (bj * regBytes)) none zmmS0,
    .vmovdquStore 64 .zmm (ptr regDstRow (bj * regBytes + regBytes)) none
      zmmA64,
    .vmovdquStore 64 .zmm (ptr regDstRow (bj * regBytes + 2 * regBytes)) none
      zmmS1,
    .vmovdquStore 64 .zmm (ptr regDstRow (bj * regBytes + 3 * regBytes)) none
      zmmB64]

/-- The blocks that the 64-column loop of `interleaveKQuad` takes. -/
def wideBlocks : Nat :=
  if params.useZmm64 then params.numBlocks / 4 * 4 else 0

/-- `interleaveKQuad`. -/
def interleaveKQuad (nLiveRows : Nat) : List Code :=
  ((List.range (params.wideBlocks / 4)).flatMap fun chunk =>
    params.interleaveKQuad64 nLiveRows (4 * chunk)) ++
  (List.range (params.numBlocks - params.wideBlocks)).flatMap fun block =>
    params.interleave16 nLiveRows (params.wideBlocks + block)

/-! ## Panels -/

/-- The loop over the whole quads of `generatePanelBody`. -/
def quadLoop : Emitted :=
  .jcc .ge .krDone ::
    ((.label .krLoop ::
      (emit (params.interleaveKQuad kFactor ++
        [.lea regSrcRow ⟨some regSrcRow, some (regLdbBytes, 4), 0⟩,
          .add regDstRow (.imm (params.NR * kFactor)),
          .add regKr (.imm kFactor), .cmp regKr (.reg regKFull)]) ++
        [.jcc .b .krLoop])) ++
      [.label .krDone])

/-- The last one to three rows of `generatePanelBody`. -/
def kTail : Emitted :=
  .jcc .e .noKtail ::
    ((emit [.cmp regKr (.imm 1)] ++
      (.jcc .e .rem1 ::
        ((emit [.cmp regKr (.imm 2)] ++
          (.jcc .e .rem2 ::
            ((emit (params.interleaveKQuad 3) ++ [.jmp .noKtail]) ++
              [.label .rem2])) ++
          (emit (params.interleaveKQuad 2) ++ [.jmp .noKtail])) ++
          [.label .rem1])) ++
      emit (params.interleaveKQuad 1)) ++
      [.label .noKtail])

/-- `generatePanelBody`. -/
def generatePanelBody : Emitted :=
  emit [.lea regSrc ⟨some regLdbBytes, some (regLdbBytes, 2), 0⟩,
    .xor regKr (.reg regKr), .cmp regKr (.reg regKFull)] ++
  params.quadLoop ++
  emit [.mov regKr (.reg regK), .and regKr (.imm (kFactor - 1))] ++
  params.kTail

/-- `zeroColSumAcc`. -/
def zeroColSumAcc : List Code :=
  (List.range params.numBlocks).map fun i =>
    .vpxor .zmm (zmmAcc0 + i) (zmmAcc0 + i) (zmmAcc0 + i)

/-- One block of `flushColSum`. -/
def flushBlock (i : Nat) : List Code :=
  .vpslld zmmCvt (zmmAcc0 + i) colSumShift ::
    if params.useMask then
      [.vmovdqu 32 .zmm (zmmAcc0 + i) (some maskLt16)
          (ptr regColSum (i * regBytes)),
        .vpaddd zmmCvt zmmCvt (zmmAcc0 + i),
        .vmovdquStore 32 .zmm (ptr regColSum (i * regBytes))
          (some maskLt16) zmmCvt]
    else
      [.vpadddLoad zmmCvt zmmCvt (ptr regColSum (i * regBytes)),
        .vmovdquStore 32 .zmm (ptr regColSum (i * regBytes)) none zmmCvt]

/-- `flushColSum`. -/
def flushColSum : List Code :=
  (List.range params.numBlocks).flatMap params.flushBlock

/-- One panel with its column sums. -/
def panel (src dst : Reg64) : Emitted :=
  emit ([.mov regSrcRow (.reg src), .mov regDstRow (.reg dst)] ++
    if params.accColSum then params.zeroColSumAcc else []) ++
  params.generatePanelBody ++
  emit (if params.accColSum then params.flushColSum else [])

/-- `generateFullPanelLoop`. -/
def generateFullPanelLoop : Emitted :=
  if params.nLoop then
    emit [.mov regSrcBase (.reg regSrc), .mov regDstBase (.reg regDst),
      .cmp regSrcBase (.reg regSrcEnd)] ++
    (.jcc .ge .jcDone ::
      ((.label .jcLoop ::
        ((params.panel regSrcBase regDstBase ++
          emit ([.add regSrcBase (.imm params.NR),
            .add regDstBase (.reg regDstPanelStride)] ++
            (if params.accColSum then
              [.add regColSum (.imm (params.NR * 4))]
            else []) ++
            [.cmp regSrcBase (.reg regSrcEnd)])) ++
          [.jcc .b .jcLoop])) ++
        [.label .jcDone]))
  else params.panel regSrc regDst

/-! ## The kernel -/

/-- `initializeParameters`. -/
def initializeParameters : List Code :=
  [.mov regSrc (.field .src), .mov regDst (.field .dst),
    .mov regK (.field .k), .mov regLdbBytes (.field .rsSrc)] ++
  (if params.nLoop then
    [.mov regDstPanelStride (.reg regK),
      .add regDstPanelStride (.imm (kFactor - 1)),
      .and regDstPanelStride (.imm (-kFactor)),
      .imul regDstPanelStride (.imm params.NR),
      .mov regSrcEnd (.field .nFullPiecesLimit),
      .add regSrcEnd (.reg regSrc)]
  else []) ++
  [.mov regKFull (.reg regK), .and regKFull (.imm (-kFactor))] ++
  (if params.accColSum then [.mov regColSum (.field .colSum)] else [])

/-- The constants and the mask of `generateKernel`. -/
def initializeRegisters : List Code :=
  .vpxor .xmm xmmZero xmmZero xmmZero ::
    (if params.useZmm64 then
      [.vconstant zmmSel1 (selectorZmm selector1),
        .vconstant zmmSel11 (selectorZmm selector11),
        .vconstant zmmSel2 (selectorZmm selector2),
        .vconstant zmmSel21 (selectorZmm selector21)]
    else []) ++
    if params.useMask then
      [.mov regKr (.field .nFringeMaskPerBlock),
        .kmovw maskLt16 (.reg regKr)]
    else []

/-- `generateKernel`; `none` for a rejected configuration.  The constants that
`embedSelectors` jumps over are operands of `vconstant`. -/
def generateKernel : Option Emitted :=
  if params.accepted then
    some (emit (params.initializeParameters ++ params.initializeRegisters) ++
      params.generateFullPanelLoop ++
      emit [.mov regKr (.imm (params.NR * kFactor)), .setField .rsDst regKr,
        .mov regKr (.imm regBytes), .setField .csDst regKr, .vzeroupper] ++
      if params.useZmm64 then
        [.jmp .selectorsEnd, .label .selectorsEnd]
      else [])
  else none

end PackBGeneratorParams

end AoclDlp.Jit.PackBGenerator
