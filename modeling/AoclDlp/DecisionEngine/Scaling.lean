import AoclDlp.Layout.Panel

/-!
# Scaling types

A kernel is specialised on its scalars.  One whose `betaScalingType` is zero
overwrites its output tile, which is right on the first K block of a call only:
the frames replace beta by one from the second K block on.  `getScalingTypes`
therefore compares K with the K block of the context.

The scalars are floats in one backend and integers in another, so the type of
the scalars is a parameter; nothing is asked of its equality test.
-/

namespace AoclDlp.DecisionEngine.Scaling

open AoclDlp.Layout.Panel

/-- `scalingType`. -/
inductive ScalingType where
  | zero
  | one
  | generic
  deriving DecidableEq, Repr

variable {Scalar : Type} [BEq Scalar] [OfNat Scalar 0] [OfNat Scalar 1]

/-- `getScalingTypes` for beta. -/
def betaScalingType (beta : Scalar) (k kcHint : Nat) : ScalingType :=
  if beta == 0 && decide (k ≤ kcHint) then .zero else .generic

/-- `getScalingTypes` for alpha. -/
def alphaScalingType (alpha : Scalar) : ScalingType :=
  if alpha == 1 then .one else if alpha == 0 then .zero else .generic

/-- The `beta0` of each iteration of a `pc` loop. -/
def pcBetas (beta : Scalar) (k KC : Nat) : List Scalar :=
  (pcLoop k KC k 0).map fun row => if row.start = 0 then beta else 1

/-- A kernel specialised on a zero beta runs on one K block, with a zero
beta. -/
def OverwritesOnce (scaling : ScalingType) (beta : Scalar) (k KC : Nat) :
    Prop :=
  scaling = .zero → pcBetas beta k KC = [beta] ∧ (beta == 0) = true

omit [OfNat Scalar 1] in
theorem betaScalingType_zero_iff (beta : Scalar) (k kcHint : Nat) :
    betaScalingType beta k kcHint = .zero ↔
      (beta == 0) = true ∧ k ≤ kcHint := by
  unfold betaScalingType
  split_ifs with both
  · simpa using both
  · simpa using both

/-- A K that fits its block is one piece. -/
theorem pcLoop_single {k KC : Nat} (positive : 0 < k) (fits : k ≤ KC) :
    pcLoop k KC k 0 = [⟨0, k⟩] := by
  obtain ⟨fuel, rfl⟩ := Nat.exists_eq_add_one_of_ne_zero positive.ne'
  unfold pcLoop
  rw [if_pos positive, min_eq_left (by omega)]
  cases fuel with
  | zero => rfl
  | succ fuel =>
      unfold pcLoop
      rw [if_neg (by omega)]
      rfl

/-- A K beyond its block has a second piece. -/
theorem one_lt_pcLoop_length {k KC : Nat} (block : 0 < KC)
    (beyond : KC < k) : 1 < (pcLoop k KC k 0).length := by
  obtain ⟨fuel, rfl⟩ := Nat.exists_eq_add_of_lt beyond
  have step : KC + fuel + 1 = (KC - 1 + fuel) + 1 + 1 := by omega
  rw [step]
  unfold pcLoop
  rw [if_pos (by omega)]
  unfold pcLoop
  rw [if_pos (by omega), List.length_cons, List.length_cons]
  omega

/-- When the specialisation is safe. -/
theorem overwritesOnce_iff (beta : Scalar) {k KC : Nat} (kcHint : Nat)
    (positive : 0 < k) (block : 0 < KC) :
    OverwritesOnce (betaScalingType beta k kcHint) beta k KC ↔
      ((beta == 0) = true → k ≤ kcHint → k ≤ KC) := by
  unfold OverwritesOnce
  rw [betaScalingType_zero_iff]
  constructor
  · intro safe zero within
    by_contra beyond
    have single := (safe ⟨zero, within⟩).1
    have several := one_lt_pcLoop_length block (not_le.mp beyond)
    have length := congrArg List.length single
    rw [pcBetas, List.length_map, List.length_singleton] at length
    omega
  · rintro fits ⟨zero, within⟩
    refine ⟨?_, zero⟩
    rw [pcBetas, pcLoop_single positive (fits zero within)]
    rfl

end AoclDlp.DecisionEngine.Scaling
