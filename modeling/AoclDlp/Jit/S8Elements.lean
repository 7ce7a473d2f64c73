import AoclDlp.Jit.S8Kernel
import Mathlib.Algebra.BigOperators.Group.List.Basic

/-!
# The elements of a tile

A lane of an accumulator is a sum over K of elements of A, offset by 128, times
elements of B.  Quads that reach over the end of K add nothing where B is
zero.
-/

namespace AoclDlp.Jit.S8Elements

open AoclDlp.Foundations.Lanes
open AoclDlp.DecisionEngine.Scaling
open AoclDlp.Jit.S8Accumulate
open AoclDlp.Jit.S8Generator
open AoclDlp.Jit.S8Scale
open AoclDlp.Jit.S8Step
open AoclDlp.Jit.S8Store

/-- A sum over `count` indices. -/
def sumOver (count : Nat) (term : Nat → BitVec 32) : BitVec 32 :=
  ((List.range count).map term).sum

@[simp]
theorem sumOver_zero (term : Nat → BitVec 32) : sumOver 0 term = 0 :=
  rfl

theorem sumOver_succ (count : Nat) (term : Nat → BitVec 32) :
    sumOver (count + 1) term = sumOver count term + term count := by
  unfold sumOver
  rw [List.range_succ, List.map_append, List.sum_append]
  simp

theorem sumOver_congr {count : Nat} {first second : Nat → BitVec 32}
    (same : ∀ index < count, first index = second index) :
    sumOver count first = sumOver count second := by
  unfold sumOver
  congr 1
  exact List.map_congr_left fun index member =>
    same index (List.mem_range.mp member)

theorem sumOver_four (term : Nat → BitVec 32) :
    sumOver 4 term = term 0 + term 1 + term 2 + term 3 := by
  rw [sumOver_succ, sumOver_succ, sumOver_succ, sumOver_succ, sumOver_zero,
    zero_add]

/-- A sum over quads is a sum over their elements. -/
theorem sumOver_quads (count : Nat) (term : Nat → BitVec 32) :
    sumOver count (fun quad => sumOver 4 fun place =>
        term (4 * quad + place)) =
      sumOver (4 * count) term := by
  induction count with
  | zero => rfl
  | succ count ih =>
      have four : 4 * (count + 1) = 4 * count + 1 + 1 + 1 + 1 := by omega
      have upper : sumOver (4 * count + 1 + 1 + 1 + 1) term =
          sumOver (4 * count) term + term (4 * count) +
            term (4 * count + 1) + term (4 * count + 2) +
            term (4 * count + 3) := by
        rw [sumOver_succ, sumOver_succ, sumOver_succ, sumOver_succ]
      rw [sumOver_succ, ih, four, upper, sumOver_four, Nat.add_zero]
      simp only [add_assoc]

/-- Terms that vanish can be left out. -/
theorem sumOver_short {count longer : Nat} {term : Nat → BitVec 32}
    (fits : count ≤ longer)
    (vanish : ∀ index, count ≤ index → index < longer → term index = 0) :
    sumOver longer term = sumOver count term := by
  induction longer with
  | zero =>
      have none : count = 0 := by omega
      rw [none]
  | succ longer ih =>
      by_cases whole : count = longer + 1
      · rw [whole]
      · rw [sumOver_succ, vanish longer (by omega) (by omega), add_zero]
        exact ih (by omega) fun index after before =>
          vanish index after (by omega)

/-! ## Signed elements -/

/-- An element, as the 32-bit arithmetic sees it. -/
def element (byte : BitVec 8) : BitVec 32 :=
  byte.signExtend 32

/-- The offset makes a signed element unsigned. -/
theorem setWidth_offset (byte : BitVec 8) :
    (byte + 128).setWidth 32 = element byte + 128 := by
  revert byte
  decide

/-- `vpdpbusd` on an offset quad. -/
theorem dotBytes_offsetQuad (quad word : BitVec 32) :
    dotBytes (offsetQuad quad) word =
      sumOver 4 fun place =>
        (element (byteOf quad (Fin.ofNat 4 place)) + 128) *
          element (byteOf word (Fin.ofNat 4 place)) := by
  have offset (place : Fin 4) : (byteOf (offsetQuad quad) place).setWidth 32 =
      element (byteOf quad place) + 128 := by
    rw [offsetQuad, addBytes, byteOf_ofBytes, byteOf_ofBytes, setWidth_offset]
  unfold dotBytes
  rw [offset, offset, offset, offset, sumOver_four]
  simp only [add_assoc]
  rfl

variable {params : GeneratorParams} {ops : Operands}

/-- A lane of an accumulator. -/
theorem dword_accAfter (rounds t : Nat) (lane : Fin 16) :
    dword (accAfter params ops rounds t) lane =
      sumOver rounds fun round =>
        dotBytes (offsetQuad (ops.quad round (t / params.bReg)))
          (dword (ops.row round (t % params.bReg)) lane) := by
  induction rounds with
  | zero => simp [accAfter]
  | succ rounds ih =>
      rw [sumOver_succ, ← ih, accAfter, roundAcc, dotStep, dword_ofDwords]

/-! ## Operands by element -/

/-- The quads of A and the registers of B, by element: a quad that reaches over
the end of K is filled with zeros. -/
structure ByElement (params : GeneratorParams) (ops : Operands) (k : Nat)
    (a b : Nat → Nat → BitVec 8) : Prop where
  quad : ∀ round i place, byteOf (ops.quad round i) place =
    if 4 * round + place < k then a i (4 * round + place) else 0
  row : ∀ round j lane place, byteOf (dword (ops.row round j) lane) place =
    b (4 * round + place) (16 * j + lane)

/-- The sum over K of a row and a column. -/
def dotProduct (k : Nat) (a b : Nat → BitVec 8) : BitVec 32 :=
  sumOver k fun r => (element (a r) + 128) * element (b r)

/-- An accumulator holds the sum over K when B is zero behind it. -/
theorem dword_accAfter_eq {k rounds t : Nat} {a b : Nat → Nat → BitVec 8}
    (elements : ByElement params ops k a b) (lane : Fin 16)
    (whole : k ≤ 4 * rounds)
    (padded : ∀ r, k ≤ r → r < 4 * rounds →
      b r (16 * (t % params.bReg) + lane) = 0) :
    dword (accAfter params ops rounds t) lane =
      dotProduct k (a (t / params.bReg)) fun r =>
        b r (16 * (t % params.bReg) + lane) := by
  let term (r : Nat) : BitVec 32 :=
    (element (if r < k then a (t / params.bReg) r else 0) + 128) *
      element (b r (16 * (t % params.bReg) + lane))
  have quads : dword (accAfter params ops rounds t) lane =
      sumOver rounds fun round => sumOver 4 fun place =>
        term (4 * round + place) := by
    rw [dword_accAfter]
    refine sumOver_congr fun round _ => ?_
    rw [dotBytes_offsetQuad]
    refine sumOver_congr fun place below => ?_
    have small : (Fin.ofNat 4 place).val = place := Nat.mod_eq_of_lt below
    rw [elements.quad, elements.row, small]
  rw [quads, sumOver_quads, sumOver_short whole]
  · refine sumOver_congr fun r below => ?_
    simp only [term, if_pos below]
  · intro r after before
    simp only [term, padded r after before]
    simp [element]

/-! ## Scaling by element -/

/-- The kernel is specialised on the scalars that it is called with. -/
structure Specialised (params : GeneratorParams) (alpha beta : BitVec 32) :
    Prop where
  alphaZero : params.alphaScalingType = .zero → alpha = 0
  alphaOne : params.alphaScalingType = .one → alpha = 1
  betaZero : params.betaScalingType = .zero → beta = 0

/-- A lane that is stored. -/
def LaneStored (params : GeneratorParams) (entry : State) (t : Nat)
    (lane : Fin 16) : Prop :=
  ∀ place, cellBytes params entry t (bytePlace lane place) = true

theorem dword_keepBytes {keep : Fin 64 → Bool} {lane : Fin 16} (value : Zmm)
    (kept : ∀ place, keep (bytePlace lane place) = true) :
    dword (keepBytes keep value) lane = dword value lane := by
  unfold dword keepBytes
  congr 1
  funext place
  rw [if_pos (kept place)]

/-- What a row block stores in a lane. -/
theorem dword_tileAcc {entry : State} {contents : Contents} {t : Nat}
    {lane : Fin 16}
    (special : Specialised params contents.alpha contents.beta)
    (stored : LaneStored params entry t lane) :
    dword (tileAcc params entry contents t) lane =
      contents.beta * dword (contents.old t) lane +
        contents.alpha *
          (dword (accAfter params contents.ops (rounds params entry) t) lane -
            if entry.field .isLastK = 0 then 0
            else dword (contents.sums (t % params.bReg)) lane) := by
  have product : dword (alphaAcc params entry contents t) lane =
      contents.alpha *
        (dword (accAfter params contents.ops (rounds params entry) t) lane -
          if entry.field .isLastK = 0 then 0
          else dword (contents.sums (t % params.bReg)) lane) := by
    have inner : dword (compensated params entry contents.sums
        (accAfter params contents.ops (rounds params entry)) t) lane =
          dword (accAfter params contents.ops (rounds params entry) t) lane -
            if entry.field .isLastK = 0 then 0
            else dword (contents.sums (t % params.bReg)) lane := by
      unfold compensated
      split_ifs with last
      · rw [sub_zero]
      · rw [dword_zipDwords]
    unfold alphaAcc
    cases scaling : params.alphaScalingType with
    | zero => simp [special.alphaZero scaling]
    | one =>
        rw [special.alphaOne scaling, one_mul]
        exact inner
    | generic =>
        simp only [dword_zipDwords, dword_splat, inner]
        exact mul_comm _ _
  have old : dword (keepBytes (cells params entry (t % params.bReg))
      (contents.old t)) lane = dword (contents.old t) lane :=
    dword_keepBytes _ stored
  unfold tileAcc
  by_cases zero : params.betaScalingType = .zero
  · rw [if_pos zero, product, special.betaZero zero, zero_mul, zero_add]
  · rw [if_neg zero, addOld, dword_zipDwords, dword_zipDwords,
      dword_splat, old, product, mul_comm _ contents.beta]
    exact add_comm _ _

end AoclDlp.Jit.S8Elements
