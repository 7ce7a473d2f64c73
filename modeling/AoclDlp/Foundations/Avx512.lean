import AoclDlp.Foundations.Assembly
import AoclDlp.Foundations.Lanes

/-!
# A subset of x86-64 with AVX-512

General registers, vector registers, opmasks, flags and memory, with the
instructions that code generators for integer kernels emit.  A generated
function receives one pointer to a parameter block; the block is kept apart
from memory and is addressed by field.

The flags of shifts, multiplications and `bzhi` are left as they are, and so are
those of additions in memory; no condition is meant to read them.
-/

namespace AoclDlp.Foundations.Avx512

open AoclDlp.Foundations.Assembly
open AoclDlp.Foundations.Lanes

universe u v

/-! ## State -/

/-- ZF, CF, and whether SF differs from OF. -/
structure Flags where
  zero : Bool
  carry : Bool
  less : Bool
  deriving DecidableEq, Repr

namespace Flags

/-- Flags of a subtraction or a comparison. -/
def ofSub (left right : BitVec 64) : Flags where
  zero := left == right
  carry := left.ult right
  less := left.slt right

/-- Flags of an addition. -/
def ofAdd (left right : BitVec 64) : Flags where
  zero := left + right == 0
  carry := (left + right).ult left
  less := decide (left.toInt + right.toInt < 0)

/-- Flags of a bitwise operation. -/
def ofLogic (result : BitVec 64) : Flags where
  zero := result == 0
  carry := false
  less := result.msb

theorem carry_ofSub {left right : Nat} (leftFits : left < 2 ^ 64)
    (rightFits : right < 2 ^ 64) :
    (ofSub (BitVec.ofNat 64 left) (BitVec.ofNat 64 right)).carry =
      decide (left < right) := by
  simp only [ofSub, BitVec.ult, BitVec.toNat_ofNat,
    Nat.mod_eq_of_lt leftFits, Nat.mod_eq_of_lt rightFits]

theorem zero_ofSub {left right : Nat} (leftFits : left < 2 ^ 64)
    (rightFits : right < 2 ^ 64) :
    (ofSub (BitVec.ofNat 64 left) (BitVec.ofNat 64 right)).zero =
      decide (left = right) := by
  simp only [ofSub, beq_eq_decide, BitVec.toNat_inj.symm,
    BitVec.toNat_ofNat, Nat.mod_eq_of_lt leftFits,
    Nat.mod_eq_of_lt rightFits]

/-- A signed comparison of small numbers. -/
theorem less_ofSub {left right : Nat} (leftFits : left < 2 ^ 63)
    (rightFits : right < 2 ^ 63) :
    (ofSub (BitVec.ofNat 64 left) (BitVec.ofNat 64 right)).less =
      decide (left < right) := by
  have value {word : Nat} (fits : word < 2 ^ 63) :
      (BitVec.ofNat 64 word).toInt = word := by
    have small : word % 2 ^ 64 = word := Nat.mod_eq_of_lt (by omega)
    rw [BitVec.toInt_eq_toNat_of_lt] <;>
      rw [BitVec.toNat_ofNat, small]
    omega
  simp only [ofSub, BitVec.slt, value leftFits, value rightFits,
    Int.ofNat_lt]

end Flags

/-! ## Bit masks -/

section Masks

variable {width : Nat}

/-- The remainder of a power of two. -/
theorem and_low (value bits : Nat) :
    BitVec.ofNat width value &&& BitVec.ofNat width (2 ^ bits - 1) =
      BitVec.ofNat width (value % 2 ^ bits) := by
  refine BitVec.eq_of_getLsbD_eq fun index below => ?_
  simp only [BitVec.getLsbD_and, BitVec.getLsbD_ofNat, below, decide_true,
    Bool.true_and, Nat.testBit_mod_two_pow, Nat.testBit_two_pow_sub_one,
    Bool.and_comm]

/-- The multiple of a power of two below a number. -/
theorem and_high (value bits : Nat) :
    BitVec.ofNat width value &&& BitVec.ofInt width (-(2 ^ bits : Nat)) =
      BitVec.ofNat width (value / 2 ^ bits * 2 ^ bits) := by
  have mask : BitVec.ofInt width (-(2 ^ bits : Nat)) =
      BitVec.allOnes width <<< bits := by
    rw [BitVec.shiftLeft_eq_mul_twoPow, BitVec.ofInt_neg,
      BitVec.ofInt_natCast, ← BitVec.neg_one_eq_allOnes, BitVec.neg_mul,
      BitVec.one_mul]
    congr 1
    apply BitVec.eq_of_toNat_eq
    rw [BitVec.toNat_ofNat, BitVec.toNat_twoPow]
  rw [mask]
  refine BitVec.eq_of_getLsbD_eq fun index below => ?_
  simp only [BitVec.getLsbD_and, BitVec.getLsbD_ofNat, below, decide_true,
    Bool.true_and, BitVec.getLsbD_shiftLeft, BitVec.getLsbD_allOnes,
    Nat.testBit_mul_two_pow, Nat.testBit_div_two_pow]
  rcases Nat.lt_or_ge index bits with low | high
  · simp [low, Nat.not_le.mpr low]
  · have behind : index - bits < width := by omega
    simp [high, Nat.not_lt.mpr high, behind]

end Masks

/-- The state of a generated function over registers `Reg` and parameter
fields `Field`. -/
structure Machine (Reg : Type u) (Field : Type v) where
  gpr : Reg → BitVec 64
  zmm : Nat → Zmm
  opmask : Nat → BitVec 64
  flags : Flags
  field : Field → BitVec 64
  memory : Memory

/-! ## Instructions -/

/-- `[base + index * scale + disp]`. -/
structure Address (Reg : Type u) where
  base : Option Reg
  index : Option (Reg × Nat)
  disp : Int
  deriving DecidableEq, Repr

/-- A source operand. -/
inductive Operand (Reg : Type u) (Field : Type v) where
  | reg (register : Reg)
  | imm (value : Int)
  | field (field : Field)
  deriving DecidableEq, Repr

/-- How many bytes a vector instruction works on. -/
inductive Width where
  | xmm
  | ymm
  | zmm
  deriving DecidableEq, Repr

/-- The bytes of a width. -/
def Width.bytes : Width → Nat
  | .xmm => 16
  | .ymm => 32
  | .zmm => 64

/-- The instructions.  A mask is the number of an opmask and zeroes what it
does not select; `bits` is the element size that a mask refers to. -/
inductive Instr (Reg : Type u) (Field : Type v) where
  | mov (dst : Reg) (src : Operand Reg Field)
  | setField (field : Field) (src : Reg)
  | lea (dst : Reg) (address : Address Reg)
  | add (dst : Reg) (src : Operand Reg Field)
  | sub (dst : Reg) (src : Operand Reg Field)
  | and (dst : Reg) (src : Operand Reg Field)
  | xor (dst : Reg) (src : Operand Reg Field)
  | imul (dst : Reg) (src : Operand Reg Field)
  | shl (dst : Reg) (count : Nat)
  | shr (dst : Reg) (count : Nat)
  | shlDword (dst : Reg) (count : Nat)
  | dec (dst : Reg)
  | bzhi (dst src count : Reg)
  | addDword (dst : Address Reg) (src : Reg)
  | test (left right : Reg)
  | cmp (left : Reg) (right : Operand Reg Field)
  | kmovw (mask : Nat) (src : Operand Reg Field)
  | kmovq (mask : Nat) (src : Reg)
  | vpxor (width : Width) (dst left right : Nat)
  | vmovdqa (width : Width) (dst src : Nat)
  | vmovdqu (bits : Nat) (width : Width) (dst : Nat) (mask : Option Nat)
      (src : Address Reg)
  | vmovdquStore (bits : Nat) (width : Width) (dst : Address Reg)
      (mask : Option Nat) (src : Nat)
  | vconstant (dst : Nat) (value : Zmm)
  | vpbroadcastd (dst src : Nat)
  | vpbroadcastdLoad (dst : Nat) (src : Address Reg)
  | vpbroadcastb (dst : Nat) (src : Reg)
  | vpaddb (dst left right : Nat)
  | vpaddd (dst left right : Nat)
  | vpadddPart (width : Width) (dst left right : Nat)
  | vpadddLoad (dst left : Nat) (right : Address Reg)
  | vpsubd (dst left right : Nat)
  | vpmulld (dst left right : Nat)
  | vpslld (dst src : Nat) (count : Nat)
  | vpdpbusd (dst left right : Nat)
  | vpmovsxbd (dst src : Nat)
  | vpunpckbw (high : Bool) (width : Width) (dst left right : Nat)
  | vpunpckwd (high : Bool) (width : Width) (dst left right : Nat)
  | vunpckps (high : Bool) (dst left right : Nat)
  | vunpckpd (high : Bool) (dst left right : Nat)
  | vshuff32x4 (dst left right : Nat) (control : Nat)
  | vpshufd (dst src : Nat) (control : Nat)
  | vinserti32x4 (dst left right : Nat) (place : Fin 4)
  | vextracti32x4 (dst src : Nat) (place : Fin 4)
  | vextracti32x8 (dst src : Nat) (place : Fin 2)
  | vpextrd (dst : Reg) (src : Nat) (place : Fin 16)
  | vpermt2q (dst selector other : Nat)
  | vzeroupper

/-- The conditions of conditional jumps. -/
inductive Cond where
  | e
  | ne
  | ge
  | l
  | b
  deriving DecidableEq, Repr

/-! ## Shuffles -/

/-- A register whose bytes above a width are zero. -/
def Width.clip (width : Width) (value : Zmm) : Zmm :=
  keepBytes (fun index => decide (index.val < width.bytes)) value

section Shuffles

variable {Byte : Type u}

/-- The source of a byte of an interleave of units of `size` bytes within
each 128-bit lane: the operand and its byte. -/
def unpackSource (size : Nat) (high : Bool) (index : Fin 64) :
    Bool × Fin 64 :=
  let lane := index.val / 16
  let place := index.val % 16
  let unit := place / (2 * size) + if high then 8 / size else 0
  (decide (place / size % 2 = 1),
    Fin.ofNat 64 (16 * lane + size * unit + place % size))

/-- Interleave the low or the high halves of each 128-bit lane. -/
def unpack (size : Nat) (high : Bool) (left right : Fin 64 → Byte) :
    Fin 64 → Byte := fun index =>
  let source := unpackSource size high index
  if source.1 then right source.2 else left source.2

/-- Replace a 128-bit lane by the lowest one of another register. -/
def insertLane (place : Fin 4) (left right : Fin 64 → Byte) :
    Fin 64 → Byte := fun index =>
  if index.val / 16 = place then right (Fin.ofNat 64 (index.val % 16))
  else left index

/-- A 128-bit lane, as the lowest one. -/
def extractLane (place : Fin 4) (value : Fin 64 → Byte) : Fin 64 → Byte :=
  fun index => value (Fin.ofNat 64 (16 * place.val + index.val % 16))

/-- A two-bit field of an immediate. -/
def controlField (control : Nat) (place : Nat) : Nat :=
  control / 4 ^ place % 4

/-- Two 128-bit lanes of one register and two of another. -/
def shuffleLanes (control : Nat) (left right : Fin 64 → Byte) :
    Fin 64 → Byte := fun index =>
  let chosen := controlField control (index.val / 16)
  let source := Fin.ofNat 64 (16 * chosen + index.val % 16)
  if index.val < 32 then left source else right source

/-- Doublewords of each 128-bit lane. -/
def shuffleDwords (control : Nat) (value : Fin 64 → Byte) :
    Fin 64 → Byte := fun index =>
  value (Fin.ofNat 64 (16 * (index.val / 16) +
    4 * controlField control (index.val % 16 / 4) + index.val % 4))

/-- A 256-bit half, as the lower one. -/
def extractHalf (place : Fin 2) (value : Fin 64 → Byte) : Fin 64 → Byte :=
  fun index => value (Fin.ofNat 64 (32 * place.val + index.val % 32))

/-- Select quadwords of two registers; each selector names one of 16. -/
def permuteQuads (selector : Fin 8 → Fin 16) (left right : Fin 64 → Byte) :
    Fin 64 → Byte := fun index =>
  let chosen := selector ⟨index.val / 8, by omega⟩
  let source := Fin.ofNat 64 (8 * (chosen.val % 8) + index.val % 8)
  if chosen.val < 8 then left source else right source

end Shuffles

/-- The selectors in a register: the low bits of its quadwords. -/
def selectorOf (value : Zmm) (quad : Fin 8) : Fin 16 :=
  Fin.ofNat 16 (value ⟨8 * quad.val, by omega⟩).toNat

/-! ## Meaning -/

section Meaning

variable {Reg : Type u} {Field : Type v} [DecidableEq Reg]
  [DecidableEq Field]

omit [DecidableEq Reg] [DecidableEq Field] in
/-- The value of an operand. -/
def Operand.value (machine : Machine Reg Field) :
    Operand Reg Field → BitVec 64
  | .reg register => machine.gpr register
  | .imm value => BitVec.ofInt 64 value
  | .field name => machine.field name

/-- The address that an operand names. -/
def Address.at (machine : Machine Reg Field) (address : Address Reg) :
    BitVec 64 :=
  let base := match address.base with
    | none => 0
    | some register => machine.gpr register
  let index := match address.index with
    | none => 0
    | some (register, scale) =>
        machine.gpr register * BitVec.ofNat 64 scale
  base + index + BitVec.ofInt 64 address.disp

namespace Machine

variable (machine : Machine Reg Field)

/-- Write a general register. -/
def setGpr (register : Reg) (value : BitVec 64) : Machine Reg Field :=
  { machine with gpr := Function.update machine.gpr register value }

/-- Write a vector register. -/
def setZmm (register : Nat) (value : Zmm) : Machine Reg Field :=
  { machine with zmm := Function.update machine.zmm register value }

/-- Write a general register and the flags. -/
def setResult (register : Reg) (value : BitVec 64) (flags : Flags) :
    Machine Reg Field :=
  { machine with
    gpr := Function.update machine.gpr register value, flags := flags }

/-- The bytes that a load or store selects. -/
def selected (bits : Nat) (width : Width) (mask : Option Nat)
    (index : Fin 64) : Bool :=
  decide (index.val < width.bytes) &&
    match mask with
    | none => true
    | some number =>
        (machine.opmask number).getLsbD (index.val / (bits / 8))

/-- A vector operation on two registers. -/
def zip (operation : Zmm → Zmm → Zmm) (dst left right : Nat) :
    Machine Reg Field :=
  machine.setZmm dst (operation (machine.zmm left) (machine.zmm right))

end Machine

/-- What an instruction does; a fault is `none`. -/
def exec (instruction : Instr Reg Field) (machine : Machine Reg Field) :
    Option (Machine Reg Field) :=
  match instruction with
  | .mov dst src => some (machine.setGpr dst (src.value machine))
  | .setField field src =>
      some { machine with
        field := Function.update machine.field field (machine.gpr src) }
  | .lea dst address => some (machine.setGpr dst (address.at machine))
  | .add dst src =>
      let left := machine.gpr dst
      let right := src.value machine
      some (machine.setResult dst (left + right) (.ofAdd left right))
  | .sub dst src =>
      let left := machine.gpr dst
      let right := src.value machine
      some (machine.setResult dst (left - right) (.ofSub left right))
  | .and dst src =>
      let result := machine.gpr dst &&& src.value machine
      some (machine.setResult dst result (.ofLogic result))
  | .xor dst src =>
      let result := machine.gpr dst ^^^ src.value machine
      some (machine.setResult dst result (.ofLogic result))
  | .imul dst src =>
      some (machine.setGpr dst (machine.gpr dst * src.value machine))
  | .shl dst count => some (machine.setGpr dst (machine.gpr dst <<< count))
  | .shr dst count => some (machine.setGpr dst (machine.gpr dst >>> count))
  | .shlDword dst count =>
      some (machine.setGpr dst
        (((machine.gpr dst).setWidth 32 <<< count).setWidth 64))
  | .dec dst =>
      let left := machine.gpr dst
      let after := Flags.ofSub left 1
      some (machine.setResult dst (left - 1)
        { after with carry := machine.flags.carry })
  | .bzhi dst src count =>
      let kept := (machine.gpr count).toNat % 256
      some (machine.setGpr dst
        (if kept < 64 then machine.gpr src &&& BitVec.ofNat 64 (2 ^ kept - 1)
        else machine.gpr src))
  | .addDword dst src =>
      (readBytes machine.memory (dst.at machine) keepDword).bind fun value =>
        (writeBytes machine.memory (dst.at machine) keepDword
          (splat (dword value 0 + (machine.gpr src).setWidth 32))).map
            fun memory => { machine with memory := memory }
  | .test left right =>
      some { machine with
        flags := .ofLogic (machine.gpr left &&& machine.gpr right) }
  | .cmp left right =>
      some { machine with
        flags := .ofSub (machine.gpr left) (right.value machine) }
  | .kmovw mask src =>
      some { machine with
        opmask := Function.update machine.opmask mask
          (((src.value machine).setWidth 16).setWidth 64) }
  | .kmovq mask src =>
      some { machine with
        opmask := Function.update machine.opmask mask (machine.gpr src) }
  | .vpxor width dst left right =>
      some (machine.zip
        (fun one other => width.clip fun index => one index ^^^ other index)
        dst left right)
  | .vmovdqa width dst src =>
      some (machine.setZmm dst (width.clip (machine.zmm src)))
  | .vmovdqu bits width dst mask src =>
      (readBytes machine.memory (src.at machine)
        (machine.selected bits width mask)).map (machine.setZmm dst)
  | .vmovdquStore bits width dst mask src =>
      (writeBytes machine.memory (dst.at machine)
        (machine.selected bits width mask) (machine.zmm src)).map
          fun memory => { machine with memory := memory }
  | .vconstant dst value => some (machine.setZmm dst value)
  | .vpbroadcastd dst src =>
      some (machine.setZmm dst (splat (dword (machine.zmm src) 0)))
  | .vpbroadcastdLoad dst src =>
      (readBytes machine.memory (src.at machine) keepDword).map fun value =>
        machine.setZmm dst (splat (dword value 0))
  | .vpbroadcastb dst src =>
      some (machine.setZmm dst
        (splatByte ((machine.gpr src).setWidth 8)))
  | .vpaddb dst left right =>
      some (machine.zip (zipDwords addBytes) dst left right)
  | .vpaddd dst left right =>
      some (machine.zip (zipDwords (· + ·)) dst left right)
  | .vpadddPart width dst left right =>
      some (machine.zip (fun one other =>
        width.clip (zipDwords (· + ·) one other)) dst left right)
  | .vpadddLoad dst left right =>
      (readBytes machine.memory (right.at machine)
        fun _ => true).map fun value =>
          machine.setZmm dst (zipDwords (· + ·) (machine.zmm left) value)
  | .vpsubd dst left right =>
      some (machine.zip (zipDwords (· - ·)) dst left right)
  | .vpmulld dst left right =>
      some (machine.zip (zipDwords (· * ·)) dst left right)
  | .vpslld dst src count =>
      some (machine.setZmm dst
        (ofDwords fun lane => dword (machine.zmm src) lane <<< count))
  | .vpdpbusd dst left right =>
      some (machine.setZmm dst (ofDwords fun lane =>
        dword (machine.zmm dst) lane +
          dotBytes (dword (machine.zmm left) lane)
            (dword (machine.zmm right) lane)))
  | .vpmovsxbd dst src =>
      some (machine.setZmm dst (ofDwords fun lane =>
        (machine.zmm src ⟨lane, by omega⟩).signExtend 32))
  | .vpunpckbw high width dst left right =>
      some (machine.zip (fun one other => width.clip (unpack 1 high one other))
        dst left right)
  | .vpunpckwd high width dst left right =>
      some (machine.zip (fun one other => width.clip (unpack 2 high one other))
        dst left right)
  | .vunpckps high dst left right =>
      some (machine.zip (unpack 4 high) dst left right)
  | .vunpckpd high dst left right =>
      some (machine.zip (unpack 8 high) dst left right)
  | .vshuff32x4 dst left right control =>
      some (machine.zip (shuffleLanes control) dst left right)
  | .vpshufd dst src control =>
      some (machine.setZmm dst
        (Width.xmm.clip (shuffleDwords control (machine.zmm src))))
  | .vinserti32x4 dst left right place =>
      some (machine.zip (insertLane place) dst left right)
  | .vextracti32x4 dst src place =>
      some (machine.setZmm dst
        (Width.xmm.clip (extractLane place (machine.zmm src))))
  | .vextracti32x8 dst src place =>
      some (machine.setZmm dst
        (Width.ymm.clip (extractHalf place (machine.zmm src))))
  | .vpextrd dst src place =>
      some (machine.setGpr dst
        ((dword (machine.zmm src) place).setWidth 64))
  | .vpermt2q dst selector other =>
      some (machine.setZmm dst (permuteQuads
        (selectorOf (machine.zmm selector)) (machine.zmm dst)
        (machine.zmm other)))
  | .vzeroupper =>
      some { machine with
        zmm := fun register =>
          if register < 16 then Width.xmm.clip (machine.zmm register)
          else machine.zmm register }

omit [DecidableEq Reg] [DecidableEq Field] in
/-- When a conditional jump is taken. -/
def holds (condition : Cond) (machine : Machine Reg Field) : Bool :=
  match condition with
  | .e => machine.flags.zero
  | .ne => !machine.flags.zero
  | .ge => !machine.flags.less
  | .l => machine.flags.less
  | .b => machine.flags.carry

/-- The meaning of generated code. -/
def semantics : Semantics (Instr Reg Field) Cond (Machine Reg Field) where
  exec := exec
  holds := holds

end Meaning

/-! ## Registers after a write -/

namespace Machine

variable {Reg : Type u} {Field : Type v} [DecidableEq Reg]
  [DecidableEq Field] (machine : Machine Reg Field)

omit [DecidableEq Field]

@[simp]
theorem setGpr_gpr (register : Reg) (value : BitVec 64) :
    (machine.setGpr register value).gpr =
      Function.update machine.gpr register value :=
  rfl

@[simp]
theorem setGpr_zmm (register : Reg) (value : BitVec 64) :
    (machine.setGpr register value).zmm = machine.zmm :=
  rfl

@[simp]
theorem setGpr_opmask (register : Reg) (value : BitVec 64) :
    (machine.setGpr register value).opmask = machine.opmask :=
  rfl

@[simp]
theorem setGpr_flags (register : Reg) (value : BitVec 64) :
    (machine.setGpr register value).flags = machine.flags :=
  rfl

@[simp]
theorem setGpr_field (register : Reg) (value : BitVec 64) :
    (machine.setGpr register value).field = machine.field :=
  rfl

@[simp]
theorem setGpr_memory (register : Reg) (value : BitVec 64) :
    (machine.setGpr register value).memory = machine.memory :=
  rfl

@[simp]
theorem setResult_gpr (register : Reg) (value : BitVec 64) (flags : Flags) :
    (machine.setResult register value flags).gpr =
      Function.update machine.gpr register value :=
  rfl

@[simp]
theorem setResult_zmm (register : Reg) (value : BitVec 64) (flags : Flags) :
    (machine.setResult register value flags).zmm = machine.zmm :=
  rfl

@[simp]
theorem setResult_opmask (register : Reg) (value : BitVec 64)
    (flags : Flags) :
    (machine.setResult register value flags).opmask = machine.opmask :=
  rfl

@[simp]
theorem setResult_flags (register : Reg) (value : BitVec 64)
    (flags : Flags) :
    (machine.setResult register value flags).flags = flags :=
  rfl

@[simp]
theorem setResult_field (register : Reg) (value : BitVec 64)
    (flags : Flags) :
    (machine.setResult register value flags).field = machine.field :=
  rfl

@[simp]
theorem setResult_memory (register : Reg) (value : BitVec 64)
    (flags : Flags) :
    (machine.setResult register value flags).memory = machine.memory :=
  rfl

omit [DecidableEq Reg]

@[simp]
theorem setZmm_gpr (register : Nat) (value : Zmm) :
    (machine.setZmm register value).gpr = machine.gpr :=
  rfl

@[simp]
theorem setZmm_zmm (register : Nat) (value : Zmm) :
    (machine.setZmm register value).zmm =
      Function.update machine.zmm register value :=
  rfl

@[simp]
theorem setZmm_setZmm (register : Nat) (first second : Zmm) :
    (machine.setZmm register first).setZmm register second =
      machine.setZmm register second := by
  simp [setZmm]

@[simp]
theorem setZmm_opmask (register : Nat) (value : Zmm) :
    (machine.setZmm register value).opmask = machine.opmask :=
  rfl

@[simp]
theorem setZmm_flags (register : Nat) (value : Zmm) :
    (machine.setZmm register value).flags = machine.flags :=
  rfl

@[simp]
theorem setZmm_field (register : Nat) (value : Zmm) :
    (machine.setZmm register value).field = machine.field :=
  rfl

@[simp]
theorem setZmm_memory (register : Nat) (value : Zmm) :
    (machine.setZmm register value).memory = machine.memory :=
  rfl

end Machine

end AoclDlp.Foundations.Avx512
