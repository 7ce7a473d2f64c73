import Mathlib.Algebra.Order.Ring.Nat
import Mathlib.Tactic.Ring

/-!
# Neighbouring divisors

Divisors of a number come in complementary pairs.  Moving one member of a
pair to the next larger divisor and the other to the next smaller one yields
a complementary pair again.
-/

namespace AoclDlp.Foundations.Divisors

/-- `next` is the least divisor of `total` above `part`. -/
structure NextDivisor (total part next : Nat) : Prop where
  above : part < next
  divides : next ∣ total
  least : ∀ other, part < other → other < next → ¬ other ∣ total

/-- `prev` is the greatest divisor of `total` below `part`. -/
structure PrevDivisor (total part prev : Nat) : Prop where
  below : prev < part
  divides : prev ∣ total
  greatest : ∀ other, prev < other → other < part → ¬ other ∣ total

/-- Stepping a complementary pair in opposite directions keeps it one. -/
theorem mul_eq_of_next_prev {total left right next prev : Nat}
    (positive : 0 < total) (pair : left * right = total)
    (up : NextDivisor total left next)
    (down : PrevDivisor total right prev) :
    next * prev = total := by
  rcases up.divides with ⟨coNext, nextPair⟩
  rcases down.divides with ⟨coPrev, prevPair⟩
  have coNextBelow : coNext < right := by
    by_contra notBelow
    have rightLe : right ≤ coNext := Nat.le_of_not_lt notBelow
    have rightPositive : 0 < right := by
      rcases Nat.eq_zero_or_pos right with zero | pos
      · rw [zero, Nat.mul_zero] at pair
        omega
      · exact pos
    have strict : left * right < next * coNext :=
      calc
        left * right < next * right :=
          Nat.mul_lt_mul_of_pos_right up.above rightPositive
        _ ≤ next * coNext := Nat.mul_le_mul_left next rightLe
    omega
  have coPrevAbove : left < coPrev := by
    by_contra notAbove
    have leLeft : coPrev ≤ left := Nat.le_of_not_lt notAbove
    have coPrevPositive : 0 < coPrev := by
      rcases Nat.eq_zero_or_pos coPrev with zero | pos
      · rw [zero, Nat.mul_zero] at prevPair
        omega
      · exact pos
    have strict : prev * coPrev < left * right :=
      calc
        prev * coPrev < right * coPrev :=
          Nat.mul_lt_mul_of_pos_right down.below coPrevPositive
        _ ≤ right * left := Nat.mul_le_mul_left right leLeft
        _ = left * right := Nat.mul_comm right left
    omega
  have coNextLe : coNext ≤ prev := by
    by_contra above
    exact down.greatest coNext (Nat.lt_of_not_le above) coNextBelow
      ⟨next, by rw [nextPair, Nat.mul_comm]⟩
  have nextLe : next ≤ coPrev := by
    by_contra below
    exact up.least coPrev coPrevAbove (Nat.lt_of_not_le below)
      ⟨prev, by rw [prevPair, Nat.mul_comm]⟩
  apply le_antisymm
  · calc
      next * prev ≤ coPrev * prev := Nat.mul_le_mul_right prev nextLe
      _ = prev * coPrev := Nat.mul_comm coPrev prev
      _ = total := prevPair.symm
  · calc
      total = next * coNext := nextPair
      _ ≤ next * prev := Nat.mul_le_mul_left next coNextLe

/-- A member of a pair whose partner is proper is above one. -/
theorem one_lt_of_pair {total left right : Nat}
    (positive : 0 < total) (pair : left * right = total)
    (proper : left < total) : 1 < right := by
  by_contra small
  have cases : right = 0 ∨ right = 1 := by omega
  rcases cases with zero | one
  · rw [zero, Nat.mul_zero] at pair
    omega
  · rw [one, Nat.mul_one] at pair
    omega

end AoclDlp.Foundations.Divisors
