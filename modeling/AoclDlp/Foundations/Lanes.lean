import Mathlib.Algebra.Order.Group.Nat
import Mathlib.Data.BitVec
import Mathlib.Data.Fin.Basic
import Mathlib.Data.Fintype.Basic
import Mathlib.Tactic.FinCases

/-!
# Vector registers as bytes

A 512-bit register is 64 bytes.  Arithmetic sees it as 16 little-endian
doublewords, memory and the shuffles see it as bytes.  Memory maps an address
to a byte or to nothing; a read faults when a byte that it selects is not
mapped, and a write changes only the bytes that it selects.
-/

namespace AoclDlp.Foundations.Lanes

universe u

/-! ## Doublewords -/

/-- The contents of a 512-bit register. -/
abbrev Zmm := Fin 64 → BitVec 8

/-- A byte of a doubleword. -/
def byteOf (word : BitVec 32) (place : Fin 4) : BitVec 8 :=
  word.extractLsb' (8 * place) 8

/-- The doubleword of four bytes. -/
def ofBytes (bytes : Fin 4 → BitVec 8) : BitVec 32 :=
  bytes 3 ++ bytes 2 ++ bytes 1 ++ bytes 0

@[simp]
theorem byteOf_ofBytes (bytes : Fin 4 → BitVec 8) (place : Fin 4) :
    byteOf (ofBytes bytes) place = bytes place := by
  apply BitVec.eq_of_getLsbD_eq
  intro bit below
  simp only [byteOf, ofBytes, BitVec.getLsbD_extractLsb',
    BitVec.getLsbD_append, below, decide_true, Bool.true_and]
  fin_cases place <;> grind

@[simp]
theorem ofBytes_byteOf (word : BitVec 32) :
    ofBytes (byteOf word) = word := by
  apply BitVec.eq_of_getLsbD_eq
  intro bit below
  simp only [ofBytes, byteOf, BitVec.getLsbD_append,
    BitVec.getLsbD_extractLsb']
  rcases (by omega : bit < 8 ∨ (8 ≤ bit ∧ bit < 16) ∨
    (16 ≤ bit ∧ bit < 24) ∨ 24 ≤ bit) with low | low | low | low <;>
    grind

/-- A place in a register, by doubleword and byte. -/
def bytePlace (lane : Fin 16) (place : Fin 4) : Fin 64 :=
  ⟨4 * lane + place, by omega⟩

/-- A doubleword of a register. -/
def dword (value : Zmm) (lane : Fin 16) : BitVec 32 :=
  ofBytes fun place => value (bytePlace lane place)

/-- A register with given doublewords. -/
def ofDwords (words : Fin 16 → BitVec 32) : Zmm :=
  fun index => byteOf (words ⟨index / 4, by omega⟩) ⟨index % 4, by omega⟩

@[simp]
theorem dword_ofDwords (words : Fin 16 → BitVec 32) (lane : Fin 16) :
    dword (ofDwords words) lane = words lane := by
  have places (place : Fin 4) : ofDwords words (bytePlace lane place) =
      byteOf (words lane) place := by
    unfold ofDwords
    have lanes : (⟨(bytePlace lane place).val / 4, by omega⟩ : Fin 16) =
        lane := Fin.ext (by simp only [bytePlace]; omega)
    have bytes : (⟨(bytePlace lane place).val % 4, by omega⟩ : Fin 4) =
        place := Fin.ext (by simp only [bytePlace]; omega)
    rw [lanes, bytes]
  unfold dword
  simp only [places]
  exact ofBytes_byteOf (words lane)

/-- A byte of a register is a byte of its doubleword. -/
theorem byteOf_dword (value : Zmm) (lane : Fin 16) (place : Fin 4) :
    byteOf (dword value lane) place = value (bytePlace lane place) :=
  byteOf_ofBytes _ place

@[simp]
theorem ofDwords_dword (value : Zmm) : ofDwords (dword value) = value := by
  funext index
  unfold ofDwords
  rw [byteOf_dword]
  congr 1
  ext
  simp only [bytePlace]
  omega

/-- Registers with the same doublewords are the same. -/
theorem ext_dword {left right : Zmm}
    (same : ∀ lane, dword left lane = dword right lane) : left = right := by
  rw [← ofDwords_dword left, ← ofDwords_dword right]
  exact congrArg ofDwords (funext same)

/-- One byte everywhere. -/
def splatByte (byte : BitVec 8) : Zmm :=
  fun _ => byte

/-- One doubleword everywhere. -/
def splat (word : BitVec 32) : Zmm :=
  ofDwords fun _ => word

/-- A binary operation on doublewords. -/
def zipDwords (operation : BitVec 32 → BitVec 32 → BitVec 32)
    (left right : Zmm) : Zmm :=
  ofDwords fun lane => operation (dword left lane) (dword right lane)

@[simp]
theorem dword_splat (word : BitVec 32) (lane : Fin 16) :
    dword (splat word) lane = word :=
  dword_ofDwords _ lane

@[simp]
theorem dword_zipDwords (operation : BitVec 32 → BitVec 32 → BitVec 32)
    (left right : Zmm) (lane : Fin 16) :
    dword (zipDwords operation left right) lane =
      operation (dword left lane) (dword right lane) :=
  dword_ofDwords _ lane

@[simp]
theorem splat_bytePlace (word : BitVec 32) (lane : Fin 16)
    (place : Fin 4) : splat word (bytePlace lane place) = byteOf word place := by
  rw [← byteOf_dword (splat word) lane place, dword_splat]

/-- A byte of the lowest doubleword. -/
theorem splat_low (word : BitVec 32) {index : Fin 64}
    (below : index.val < 4) :
    splat word index = byteOf word ⟨index, below⟩ := by
  have place : (⟨index.val % 4, by omega⟩ : Fin 4) = ⟨index, below⟩ :=
    Fin.ext (Nat.mod_eq_of_lt below)
  rw [splat, ofDwords, place]

/-- `vpaddb` on a doubleword. -/
def addBytes (left right : BitVec 32) : BitVec 32 :=
  ofBytes fun place => byteOf left place + byteOf right place

/-- What `vpdpbusd` adds: unsigned bytes times signed bytes. -/
def dotBytes (left right : BitVec 32) : BitVec 32 :=
  ((byteOf left 0).setWidth 32 * (byteOf right 0).signExtend 32 +
    (byteOf left 1).setWidth 32 * (byteOf right 1).signExtend 32) +
  ((byteOf left 2).setWidth 32 * (byteOf right 2).signExtend 32 +
    (byteOf left 3).setWidth 32 * (byteOf right 3).signExtend 32)

/-! ## Memory -/

/-- Bytes at the mapped addresses. -/
abbrev Memory := BitVec 64 → Option (BitVec 8)

/-- The address of a byte of an operand. -/
def offset (address : BitVec 64) (index : Nat) : BitVec 64 :=
  address + BitVec.ofNat 64 index

@[simp]
theorem offset_zero (address : BitVec 64) : offset address 0 = address :=
  BitVec.add_zero address

theorem offset_offset (address : BitVec 64) (first second : Nat) :
    offset (offset address first) second = offset address (first + second) := by
  unfold offset
  rw [BitVec.add_assoc, BitVec.ofNat_add]

/-- Read the selected bytes; the others are zero. -/
def readBytes (memory : Memory) (address : BitVec 64)
    (keep : Fin 64 → Bool) : Option Zmm :=
  if ∀ index, keep index = true → (memory (offset address index)).isSome then
    some fun index =>
      if keep index then (memory (offset address index)).getD 0 else 0
  else none

/-- Write the selected bytes. -/
def writeBytes (memory : Memory) (address : BitVec 64)
    (keep : Fin 64 → Bool) (value : Zmm) : Option Memory :=
  if ∀ index, keep index = true → (memory (offset address index)).isSome then
    some fun place =>
      if inside : (place - address).toNat < 64 then
        if keep ⟨(place - address).toNat, inside⟩ then
          some (value ⟨(place - address).toNat, inside⟩)
        else memory place
      else memory place
  else none

/-- The selected bytes of memory at an address. -/
def Holds (memory : Memory) (address : BitVec 64) (keep : Fin 64 → Bool)
    (value : Zmm) : Prop :=
  ∀ index, keep index = true →
    memory (offset address index) = some (value index)

/-- A register with only its selected bytes. -/
def keepBytes (keep : Fin 64 → Bool) (value : Zmm) : Zmm :=
  fun index => if keep index then value index else 0

theorem readBytes_of_holds {memory : Memory} {address : BitVec 64}
    {keep : Fin 64 → Bool} {value : Zmm}
    (holds : Holds memory address keep value) :
    readBytes memory address keep = some (keepBytes keep value) := by
  unfold readBytes keepBytes
  rw [if_pos fun index kept => by rw [holds index kept]; rfl]
  congr 1
  funext index
  cases kept : keep index with
  | false => rfl
  | true => simp [holds index kept]

theorem keepBytes_all (value : Zmm) : keepBytes (fun _ => true) value = value :=
  rfl

theorem offset_sub (address : BitVec 64) {index : Nat}
    (below : index < 64) : (offset address index - address).toNat = index := by
  unfold offset
  rw [BitVec.add_comm, BitVec.add_sub_cancel, BitVec.toNat_ofNat]
  exact Nat.mod_eq_of_lt (by omega)

theorem writeBytes_of_mapped {memory : Memory} {address : BitVec 64}
    {keep : Fin 64 → Bool} (value : Zmm)
    (mapped : ∀ index, keep index = true →
      (memory (offset address index)).isSome) :
    ∃ written, writeBytes memory address keep value = some written ∧
      Holds written address keep value ∧
      ∀ place, (∀ index, keep index = true →
        place ≠ offset address index) → written place = memory place := by
  refine ⟨_, if_pos mapped, ?_, ?_⟩
  · intro index kept
    have place := offset_sub address index.isLt
    simp only [place, Fin.eta, kept, index.isLt, dite_true, if_true]
  · intro place apart
    split_ifs with inside kept
    · refine absurd ?_ (apart _ kept)
      unfold offset
      rw [BitVec.ofNat_toNat, BitVec.setWidth_eq, BitVec.add_comm,
        BitVec.sub_add_cancel]
    · rfl
    · rfl

/-- A doubleword of memory. -/
def DwordAt (memory : Memory) (address : BitVec 64) (word : BitVec 32) :
    Prop :=
  ∀ place : Fin 4, memory (offset address place) = some (byteOf word place)

/-- A memory that maps more. -/
def Extends (memory larger : Memory) : Prop :=
  ∀ place byte, memory place = some byte → larger place = some byte

theorem Holds.extend {memory larger : Memory} {address : BitVec 64}
    {keep : Fin 64 → Bool} {value : Zmm} (grows : Extends memory larger)
    (holds : Holds memory address keep value) :
    Holds larger address keep value :=
  fun index kept => grows _ _ (holds index kept)

theorem DwordAt.extend {memory larger : Memory} {address : BitVec 64}
    {word : BitVec 32} (grows : Extends memory larger)
    (stored : DwordAt memory address word) : DwordAt larger address word :=
  fun place => grows _ _ (stored place)

/-- The first four bytes. -/
def keepDword (index : Fin 64) : Bool :=
  decide (index.val < 4)

end AoclDlp.Foundations.Lanes
