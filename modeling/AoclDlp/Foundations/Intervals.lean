import Mathlib.Order.Monotone.Basic
import Mathlib.Order.Interval.Set.Basic
import Mathlib.Logic.ExistsUnique

/-!
# Consecutive half-open intervals

A finite family of consecutive intervals of `[0, size)` is given by its
boundaries.  The boundaries are monotone, start at zero and end at `size`, so
the intervals partition `[0, size)`.  Only existence and uniqueness of the
interval of an index are needed by a loop split over workers; emptiness of
some of the intervals is allowed.
-/

namespace AoclDlp.Foundations.Intervals

/-- Boundaries of `ways` consecutive intervals that cover `[0, size)`. -/
structure Cuts (ways size : Nat) where
  cut : Nat → Nat
  cut_zero : cut 0 = 0
  cut_ways : cut ways = size
  monotone : ∀ way, way < ways → cut way ≤ cut (way + 1)

namespace Cuts

variable {ways size : Nat}

/-- The index lies in the interval of the given way. -/
def Owns (cuts : Cuts ways size) (way index : Nat) : Prop :=
  cuts.cut way ≤ index ∧ index < cuts.cut (way + 1)

theorem cut_le_cut
    (cuts : Cuts ways size) {lower upper : Nat}
    (ordered : lower ≤ upper) (bounded : upper ≤ ways) :
    cuts.cut lower ≤ cuts.cut upper := by
  induction upper, ordered using Nat.le_induction with
  | base => exact le_rfl
  | succ upper ordered ih =>
      have previous : cuts.cut lower ≤ cuts.cut upper :=
        ih (Nat.le_of_succ_le bounded)
      exact previous.trans (cuts.monotone upper bounded)

theorem cut_le_size
    (cuts : Cuts ways size) {way : Nat} (bounded : way ≤ ways) :
    cuts.cut way ≤ size :=
  (cuts.cut_le_cut bounded le_rfl).trans_eq cuts.cut_ways

/-- Every index below a boundary lies in an interval before it. -/
theorem exists_owns_of_lt_cut
    (cuts : Cuts ways size) {index : Nat} :
    ∀ way, index < cuts.cut way →
      ∃ owner, owner < way ∧ cuts.Owns owner index
  | 0, below => by
      rw [cuts.cut_zero] at below
      exact absurd below (Nat.not_lt_zero index)
  | way + 1, below => by
      by_cases earlier : index < cuts.cut way
      · rcases cuts.exists_owns_of_lt_cut way earlier with
          ⟨owner, bounded, owns⟩
        exact ⟨owner, Nat.lt_succ_of_lt bounded, owns⟩
      · exact ⟨way, Nat.lt_succ_self way, Nat.le_of_not_lt earlier, below⟩

theorem owns_unique
    (cuts : Cuts ways size) {left right index : Nat}
    (leftWay : left < ways) (rightWay : right < ways)
    (leftOwns : cuts.Owns left index)
    (rightOwns : cuts.Owns right index) :
    left = right := by
  rcases Nat.lt_trichotomy left right with less | equal | greater
  · have crossed := cuts.cut_le_cut less rightWay.le
    exact absurd (leftOwns.2.trans_le (crossed.trans rightOwns.1))
      (lt_irrefl index)
  · exact equal
  · have crossed := cuts.cut_le_cut greater leftWay.le
    exact absurd (rightOwns.2.trans_le (crossed.trans leftOwns.1))
      (lt_irrefl index)

/-- Consecutive intervals partition `[0, size)`. -/
theorem existsUnique_owns
    (cuts : Cuts ways size) {index : Nat} (below : index < size) :
    ∃! way, way < ways ∧ cuts.Owns way index := by
  rcases cuts.exists_owns_of_lt_cut ways
      (below.trans_eq cuts.cut_ways.symm) with
    ⟨owner, bounded, owns⟩
  refine ⟨owner, ⟨bounded, owns⟩, ?_⟩
  rintro other ⟨otherBounded, otherOwns⟩
  exact cuts.owns_unique otherBounded bounded otherOwns owns

end Cuts

end AoclDlp.Foundations.Intervals
