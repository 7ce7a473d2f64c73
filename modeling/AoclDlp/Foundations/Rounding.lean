import Mathlib.Algebra.Order.Ring.Nat
import Mathlib.Tactic.Ring

/-!
# Rounding to block multiples

Rounding up to a multiple of a block and the start of the block that contains
an index.  Both are used for padded extents and for panel boundaries.
-/

namespace AoclDlp.Foundations.Rounding

/-- The least multiple of `block` that is at least `value`. -/
def roundUp (value block : Nat) : Nat :=
  (value + block - 1) / block * block

/-- The start of the block that contains `index`. -/
def blockStart (index block : Nat) : Nat :=
  index / block * block

theorem dvd_roundUp (value block : Nat) : block ∣ roundUp value block :=
  Nat.dvd_mul_left block _

theorem dvd_blockStart (index block : Nat) :
    block ∣ blockStart index block :=
  Nat.dvd_mul_left block _

theorem roundUp_lt {block : Nat} (positive : 0 < block) (value : Nat) :
    roundUp value block < value + block := by
  have upper := Nat.div_mul_le_self (value + block - 1) block
  unfold roundUp
  omega

theorem le_roundUp {block : Nat} (positive : 0 < block) (value : Nat) :
    value ≤ roundUp value block := by
  have split := Nat.div_add_mod (value + block - 1) block
  have small := Nat.mod_lt (value + block - 1) positive
  unfold roundUp
  rw [Nat.mul_comm] at split
  omega

theorem roundUp_le_of_dvd {block value bound : Nat} (positive : 0 < block)
    (divides : block ∣ bound) (below : value ≤ bound) :
    roundUp value block ≤ bound := by
  rcases divides with ⟨count, rfl⟩
  have close := roundUp_lt positive value
  rcases dvd_roundUp value block with ⟨units, equal⟩
  rw [equal] at close ⊢
  apply Nat.mul_le_mul_left
  by_contra above
  have step : block * (count + 1) ≤ block * units :=
    Nat.mul_le_mul_left block (Nat.lt_of_not_le above)
  rw [Nat.mul_add, Nat.mul_one] at step
  omega

theorem roundUp_of_dvd {block value : Nat} (positive : 0 < block)
    (divides : block ∣ value) : roundUp value block = value :=
  le_antisymm (roundUp_le_of_dvd positive divides le_rfl)
    (le_roundUp positive value)

theorem roundUp_add_of_dvd {block base : Nat} (positive : 0 < block)
    (divides : block ∣ base) (value : Nat) :
    roundUp (base + value) block = base + roundUp value block := by
  apply le_antisymm
  · apply roundUp_le_of_dvd positive
    · exact Nat.dvd_add divides (dvd_roundUp value block)
    · exact Nat.add_le_add_left (le_roundUp positive value) base
  · have covers := le_roundUp positive (base + value)
    have rest : roundUp value block ≤ roundUp (base + value) block - base :=
      roundUp_le_of_dvd positive
        (Nat.dvd_sub (dvd_roundUp (base + value) block) divides) (by omega)
    omega

/-- A multiple above a block's start lies at or past the block's end. -/
theorem add_le_of_dvd_lt {block left right : Nat}
    (leftDvd : block ∣ left) (rightDvd : block ∣ right)
    (less : left < right) : left + block ≤ right := by
  rcases leftDvd with ⟨leftCount, rfl⟩
  rcases rightDvd with ⟨rightCount, rfl⟩
  have counts : leftCount < rightCount := lt_of_mul_lt_mul_left less block.zero_le
  calc
    block * leftCount + block = block * (leftCount + 1) := by ring
    _ ≤ block * rightCount := Nat.mul_le_mul_left block counts

theorem roundUp_eq_add_gap {block : Nat} (positive : 0 < block)
    (value : Nat) :
    roundUp value block =
      value + if value % block ≠ 0 then block - value % block else 0 := by
  have split := Nat.div_add_mod value block
  have small := Nat.mod_lt value positive
  by_cases whole : value % block = 0
  · rw [if_neg (not_not.mpr whole), Nat.add_zero]
    exact roundUp_of_dvd positive (Nat.dvd_of_mod_eq_zero whole)
  · rw [if_pos whole]
    apply le_antisymm
    · apply roundUp_le_of_dvd positive _ (Nat.le_add_right _ _)
      refine ⟨value / block + 1, ?_⟩
      rw [Nat.mul_add, Nat.mul_one]
      omega
    · have multiple : block * (value / block) < roundUp value block :=
        lt_of_lt_of_le (by omega) (le_roundUp positive value)
      have next := add_le_of_dvd_lt (Nat.dvd_mul_right block _)
        (dvd_roundUp value block) multiple
      omega

theorem roundUp_pos {block value : Nat} (positive : 0 < block)
    (nonempty : 0 < value) : 0 < roundUp value block :=
  nonempty.trans_le (le_roundUp positive value)

theorem blockStart_le (index block : Nat) :
    blockStart index block ≤ index :=
  Nat.div_mul_le_self index block

theorem lt_blockStart_add {block : Nat} (positive : 0 < block)
    (index : Nat) : index < blockStart index block + block := by
  have split := Nat.div_add_mod index block
  have small := Nat.mod_lt index positive
  unfold blockStart
  rw [Nat.mul_comm] at split
  omega

/-- The aligned block around an index is its block. -/
theorem blockStart_eq {block start index : Nat} (divides : block ∣ start)
    (lower : start ≤ index) (upper : index < start + block) :
    blockStart index block = start := by
  rcases divides with ⟨count, rfl⟩
  have positive : 0 < block := by
    by_contra zero
    have none : block = 0 := by omega
    rw [none] at upper
    omega
  have quotient : index / block = count := by
    apply Nat.div_eq_of_lt_le
    · rw [Nat.mul_comm]
      exact lower
    · rw [Nat.add_mul, Nat.one_mul, Nat.mul_comm]
      exact upper
  rw [blockStart, quotient, Nat.mul_comm]

theorem blockStart_add_of_dvd {block base : Nat} (positive : 0 < block)
    (divides : block ∣ base) (index : Nat) :
    blockStart (base + index) block = base + blockStart index block := by
  apply blockStart_eq
  · exact Nat.dvd_add divides (dvd_blockStart index block)
  · exact Nat.add_le_add_left (blockStart_le index block) base
  · rw [Nat.add_assoc]
    exact Nat.add_lt_add_left (lt_blockStart_add positive index) base

/-- Row and column of a cell of a row-major table are determined by it. -/
theorem mul_add_eq_iff {width row row2 column column2 : Nat}
    (inside : column < width) (inside2 : column2 < width) :
    row * width + column = row2 * width + column2 ↔
      row = row2 ∧ column = column2 := by
  constructor
  · intro equal
    have positive : 0 < width := Nat.zero_lt_of_lt inside
    have first := (Nat.div_mod_unique positive).mpr
      ⟨(show column + width * row = row2 * width + column2 by
        rw [← equal]
        ring), inside⟩
    have second := (Nat.div_mod_unique positive).mpr
      ⟨(show column2 + width * row2 = row2 * width + column2 by ring),
        inside2⟩
    exact ⟨first.1.symm.trans second.1, first.2.symm.trans second.2⟩
  · rintro ⟨rfl, rfl⟩
    rfl

end AoclDlp.Foundations.Rounding
