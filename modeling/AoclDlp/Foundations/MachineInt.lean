import AoclDlp.Foundations.Rounding
import Mathlib.Data.Nat.Cast.Order.Ring
import Mathlib.Tactic.NormNum

/-!
# Machine integers

Signed and unsigned words as integers: an operation is the exact one followed
by a reduction to the width of the word.  Operations on counts are exact as
long as the exact result fits.
-/

namespace AoclDlp.Foundations.MachineInt

open AoclDlp.Foundations.Rounding

/-- A signed word, in two's complement. -/
def signedWord (width : Nat) (value : Int) : Int :=
  value.bmod (2 ^ width)

/-- An unsigned word. -/
def unsignedWord (width : Nat) (value : Int) : Int :=
  value % 2 ^ width

variable {width : Nat}

theorem signedWord_natCast {value : Nat} (fits : 2 * value < 2 ^ width) :
    signedWord width value = value := by
  apply Int.bmod_eq_of_le_mul_two
  · omega
  · exact_mod_cast (mul_comm value 2).symm ▸ fits

theorem unsignedWord_natCast {value : Nat} (fits : value < 2 ^ width) :
    unsignedWord width value = value := by
  apply Int.emod_eq_of_lt (Int.natCast_nonneg value)
  exact_mod_cast fits

/-! ## Rounding in signed words -/

/-- `(value + block - 1) / block`, word by word. -/
def wordCeilDiv (width : Nat) (value block : Int) : Int :=
  signedWord width
    ((signedWord width (signedWord width (value + block) - 1)).tdiv block)

/-- `((value + block - 1) / block) * block`, word by word. -/
def wordRoundUp (width : Nat) (value block : Int) : Int :=
  signedWord width (wordCeilDiv width value block * block)

theorem wordCeilDiv_natCast {value block : Nat} (positive : 0 < block)
    (fits : 2 * (value + block) < 2 ^ width) :
    wordCeilDiv width value block =
      ((value + block - 1) / block : Nat) := by
  have below := Nat.div_le_self (value + block - 1) block
  have sum : signedWord width ((value : Int) + block) =
      ((value + block : Nat) : Int) := by
    rw [← Nat.cast_add]
    exact signedWord_natCast fits
  have less : ((value + block : Nat) : Int) - 1 =
      ((value + block - 1 : Nat) : Int) := by
    omega
  unfold wordCeilDiv
  rw [sum, less, signedWord_natCast (by omega),
    Int.tdiv_eq_ediv_of_nonneg (Int.natCast_nonneg _), ← Int.natCast_ediv,
    signedWord_natCast (by omega)]

theorem wordRoundUp_natCast {value block : Nat} (positive : 0 < block)
    (fits : 2 * (value + block) < 2 ^ width) :
    wordRoundUp width value block = (roundUp value block : Nat) := by
  have close := roundUp_lt positive value
  unfold wordRoundUp
  rw [wordCeilDiv_natCast positive fits, ← Nat.cast_mul]
  unfold roundUp at close ⊢
  exact signedWord_natCast (by omega)

/-! ## Checked products -/

/-- The product of two unsigned words that are at most `largest`, unless it
is larger. -/
def checkedMul (largest first second : Int) : Option Int :=
  if first ≠ 0 ∧ largest / first < second then none
  else some (first * second)

/-- A product that fits is exact. -/
theorem checkedMul_natCast {largest first second : Nat}
    (fits : first * second ≤ largest) :
    checkedMul largest first second = some ((first * second : Nat) : Int) := by
  unfold checkedMul
  rw [if_neg, Nat.cast_mul]
  rintro ⟨nonzero, above⟩
  have positive : 0 < first := Nat.pos_of_ne_zero fun zero =>
    nonzero (by rw [zero]; rfl)
  rw [← Int.natCast_ediv, Nat.cast_lt, Nat.div_lt_iff_lt_mul positive] at above
  exact absurd fits (not_le.mpr ((mul_comm second first) ▸ above))

end AoclDlp.Foundations.MachineInt
