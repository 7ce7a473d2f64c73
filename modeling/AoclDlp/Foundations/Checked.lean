import AoclDlp.Foundations.Rounding
import Mathlib.Order.Basic

/-!
# Arithmetic that can fail

Division and remainder of naturals that fail on a zero divisor, and rounding
up in a signed 64-bit type, which fails where an intermediate value leaves the
type.
-/

namespace AoclDlp.Foundations.Checked

open AoclDlp.Foundations.Rounding

/-- A quotient, unless the divisor is zero. -/
def checkedDiv (dividend divisor : Nat) : Option Nat :=
  if divisor = 0 then none else some (dividend / divisor)

/-- A remainder, unless the divisor is zero. -/
def checkedMod (dividend divisor : Nat) : Option Nat :=
  if divisor = 0 then none else some (dividend % divisor)

section Divisor

variable {divisor : Nat}

theorem checkedDiv_eq (positive : 0 < divisor) (dividend : Nat) :
    checkedDiv dividend divisor = some (dividend / divisor) :=
  if_neg (Nat.ne_of_gt positive)

theorem checkedMod_eq (positive : 0 < divisor) (dividend : Nat) :
    checkedMod dividend divisor = some (dividend % divisor) :=
  if_neg (Nat.ne_of_gt positive)

end Divisor

/-! ## Signed 64-bit values -/

/-- A value of a signed 64-bit type, unless it is out of range. -/
def checkedInt64 (value : Int) : Option Int :=
  if -2 ^ 63 ≤ value ∧ value < 2 ^ 63 then some value else none

/-- A truncated quotient of a signed 64-bit type. -/
def checkedTdiv (dividend divisor : Int) : Option Int :=
  if divisor = 0 then none else checkedInt64 (dividend.tdiv divisor)

/-- `((value + block - 1) / block) * block` in a signed 64-bit type, one
operation after the other. -/
def checkedRoundUp (value block : Int) : Option Int := do
  let sum ← checkedInt64 (value + block)
  let last ← checkedInt64 (sum - 1)
  let blocks ← checkedTdiv last block
  checkedInt64 (blocks * block)

theorem checkedInt64_natCast (value : Nat) :
    checkedInt64 value =
      if value < 2 ^ 63 then some (value : Int) else none := by
  have same : (-2 ^ 63 ≤ (value : Int) ∧ (value : Int) < 2 ^ 63) ↔
      value < 2 ^ 63 := by omega
  unfold checkedInt64
  exact if_congr same rfl rfl

/-- The first sum decides whether rounding up stays in the type. -/
theorem checkedRoundUp_eq {block : Nat} (positive : 0 < block)
    (value : Nat) :
    checkedRoundUp value block =
      if value + block < 2 ^ 63 then some (roundUp value block : Int)
      else none := by
  unfold checkedRoundUp
  rw [← Nat.cast_add, checkedInt64_natCast]
  by_cases small : value + block < 2 ^ 63
  · have last : ((value + block : Nat) : Int) - 1 =
        (value + block - 1 : Nat) := by omega
    have lower : value + block - 1 < 2 ^ 63 := by omega
    have quotient : (value + block - 1) / block < 2 ^ 63 :=
      (Nat.div_le_self _ _).trans_lt lower
    have product : (value + block - 1) / block * block < 2 ^ 63 :=
      (Nat.div_mul_le_self _ _).trans_lt lower
    have nonzero : ¬ (block : Int) = 0 := by omega
    have divided : checkedTdiv (value + block - 1 : Nat) block =
        some (((value + block - 1) / block : Nat) : Int) := by
      rw [checkedTdiv, if_neg nonzero, ← Int.ofNat_tdiv,
        checkedInt64_natCast, if_pos quotient]
    rw [if_pos small, if_pos small]
    dsimp only [bind, Option.bind]
    rw [last, checkedInt64_natCast, if_pos lower]
    dsimp only
    rw [divided]
    change checkedInt64 (((value + block - 1) / block : Nat) * block) = _
    rw [← Nat.cast_mul, checkedInt64_natCast, if_pos product]
    rfl
  · rw [if_neg small, if_neg small]
    rfl

/-- The rounding stays in the signed 64-bit type. -/
def roundUpStays (value block : Nat) : Bool :=
  (checkedRoundUp value block).isSome

@[simp]
theorem roundUpStays_iff {value block : Nat} (positive : 0 < block) :
    roundUpStays value block = true ↔ value + block < 2 ^ 63 := by
  unfold roundUpStays
  rw [checkedRoundUp_eq positive]
  split
  · exact iff_of_true rfl ‹_›
  · exact iff_of_false Bool.false_ne_true ‹_›

end AoclDlp.Foundations.Checked
