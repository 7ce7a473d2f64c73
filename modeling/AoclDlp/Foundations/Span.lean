import AoclDlp.Foundations.Rounding
import Mathlib.Data.List.Pairwise

/-!
# Chains of consecutive pieces

A loop over `[start, stop)` that handles one nonempty piece per iteration
produces a chain: every piece starts where the previous one stopped.  Chains
compose by concatenation, so the pieces of a team are a chain as soon as each
worker's pieces chain from its start to the next worker's start.
-/

namespace AoclDlp.Foundations.Span

open AoclDlp.Foundations.Rounding

universe u v

/-- A half-open interval `[start, start + width)`. -/
structure Piece where
  start : Nat
  width : Nat
  deriving DecidableEq, Repr

/-- The index lies in the piece. -/
def Piece.Has (piece : Piece) (index : Nat) : Prop :=
  piece.start ≤ index ∧ index < piece.start + piece.width

instance (piece : Piece) (index : Nat) : Decidable (piece.Has index) :=
  inferInstanceAs (Decidable (_ ∧ _))

/-- `pieces` are nonempty, consecutive, and cover `[start, stop)`. -/
inductive Chain : Nat → List Piece → Nat → Prop where
  | nil (start : Nat) : Chain start [] start
  | cons {start width stop : Nat} {rest : List Piece} :
      0 < width → Chain (start + width) rest stop →
        Chain start (⟨start, width⟩ :: rest) stop

namespace Chain

theorem append {start middle stop : Nat} {left right : List Piece}
    (first : Chain start left middle) (second : Chain middle right stop) :
    Chain start (left ++ right) stop := by
  induction first with
  | nil start => exact second
  | cons positive _ ih => exact .cons positive (ih second)

theorem le {start stop : Nat} {pieces : List Piece}
    (chain : Chain start pieces stop) : start ≤ stop := by
  induction chain with
  | nil start => exact le_rfl
  | cons positive _ ih => exact (Nat.le_add_right _ _).trans ih

theorem bounds {start stop : Nat} {pieces : List Piece}
    (chain : Chain start pieces stop) {piece : Piece}
    (member : piece ∈ pieces) :
    start ≤ piece.start ∧ 0 < piece.width ∧
      piece.start + piece.width ≤ stop := by
  induction chain with
  | nil start => cases member
  | cons positive rest ih =>
      rcases List.mem_cons.mp member with rfl | later
      · exact ⟨le_rfl, positive, rest.le⟩
      · rcases ih later with ⟨lower, nonempty, upper⟩
        exact ⟨(Nat.le_add_right _ _).trans lower, nonempty, upper⟩

theorem pairwise {start stop : Nat} {pieces : List Piece}
    (chain : Chain start pieces stop) :
    pieces.Pairwise fun left right =>
      left.start + left.width ≤ right.start := by
  induction chain with
  | nil start => exact .nil
  | cons positive rest ih =>
      apply List.Pairwise.cons
      · intro piece member
        exact (rest.bounds member).1
      · exact ih

/-- Every index of the chain lies in one of its pieces. -/
theorem exists_has {start stop : Nat} {pieces : List Piece}
    (chain : Chain start pieces stop) {index : Nat}
    (lower : start ≤ index) (upper : index < stop) :
    ∃ piece, piece ∈ pieces ∧ piece.Has index := by
  induction chain with
  | nil start => exact absurd upper (Nat.not_lt.mpr lower)
  | @cons start width stop rest positive _ ih =>
      by_cases here : index < start + width
      · exact ⟨⟨start, width⟩, List.mem_cons_self, lower, here⟩
      · rcases ih (Nat.le_of_not_lt here) upper with ⟨piece, member, has⟩
        exact ⟨piece, List.mem_cons_of_mem _ member, has⟩

/-- The pieces of a chain hold exactly its indices. -/
theorem exists_has_iff {start stop : Nat} {pieces : List Piece}
    (chain : Chain start pieces stop) {index : Nat} :
    (∃ piece, piece ∈ pieces ∧ piece.Has index) ↔
      start ≤ index ∧ index < stop := by
  constructor
  · rintro ⟨piece, member, lower, upper⟩
    rcases chain.bounds member with ⟨first, -, last⟩
    exact ⟨first.trans lower, upper.trans_le last⟩
  · rintro ⟨lower, upper⟩
    exact chain.exists_has lower upper

/-- A piece of a chain is its first, or starts where the one before ends. -/
theorem previous {start stop : Nat} {pieces : List Piece}
    (chain : Chain start pieces stop) {index : Nat} {piece : Piece}
    (found : pieces[index]? = some piece) :
    (index = 0 ∧ piece.start = start) ∨
      ∃ before earlier, index = before + 1 ∧
        pieces[before]? = some earlier ∧
        earlier.start + earlier.width = piece.start := by
  induction chain generalizing index with
  | nil start => cases found
  | @cons start width stop rest positive _ ih =>
      cases index with
      | zero =>
          rw [List.getElem?_cons_zero, Option.some.injEq] at found
          rw [← found]
          exact Or.inl ⟨rfl, rfl⟩
      | succ index =>
          rw [List.getElem?_cons_succ] at found
          right
          rcases ih found with
            ⟨rfl, first⟩ | ⟨before, earlier, rfl, inRest, ends⟩
          · exact ⟨0, _, rfl, rfl, first.symm⟩
          · exact ⟨before + 1, earlier, rfl, inRest, ends⟩

/-- An index lies in at most one piece. -/
theorem unique {start stop : Nat} {pieces : List Piece}
    (chain : Chain start pieces stop) {left right : Piece}
    (leftMember : left ∈ pieces) (rightMember : right ∈ pieces)
    {index : Nat} (leftHas : left.Has index) (rightHas : right.Has index) :
    left = right := by
  induction chain with
  | nil start => cases leftMember
  | cons positive rest ih =>
      rcases List.mem_cons.mp leftMember with rfl | leftLater <;>
        rcases List.mem_cons.mp rightMember with rfl | rightLater
      · rfl
      · have after := (rest.bounds rightLater).1
        exact absurd (leftHas.2.trans_le (after.trans rightHas.1))
          (lt_irrefl index)
      · have after := (rest.bounds leftLater).1
        exact absurd (rightHas.2.trans_le (after.trans leftHas.1))
          (lt_irrefl index)
      · exact ih leftLater rightLater

/-- Items of a chain that contribute only if they hold an index contribute
once. -/
theorem exists_flatMap {start stop : Nat} {Item : Type u}
    {items : List Item} {piece : Item → Piece}
    (chain : Chain start (items.map piece) stop) {index : Nat}
    (lower : start ≤ index) (upper : index < stop) :
    ∃ item, item ∈ items ∧ (piece item).Has index ∧
      ∀ {Result : Type v} (f : Item → List Result),
        (∀ other, other ∈ items → ¬ (piece other).Has index →
          f other = []) →
        items.flatMap f = f item := by
  induction items generalizing start with
  | nil =>
      cases chain
      exact absurd upper (Nat.not_lt.mpr lower)
  | cons item rest ih =>
      generalize shape : piece item = head at chain
      rw [List.map_cons, shape] at chain
      cases chain with
      | @cons _ width _ _ positive tail =>
          by_cases here : index < start + width
          · refine ⟨item, List.mem_cons_self, ?_, ?_⟩
            · rw [shape]
              exact ⟨lower, here⟩
            · intro Result f others
              rw [List.flatMap_cons, List.flatMap_eq_nil_iff.mpr,
                List.append_nil]
              intro other member
              apply others other (List.mem_cons_of_mem _ member)
              intro has
              have behind :=
                (tail.bounds (List.mem_map_of_mem member)).1
              exact absurd (here.trans_le (behind.trans has.1))
                (lt_irrefl index)
          · rcases ih tail (Nat.le_of_not_lt here) with
              ⟨found, member, has, only⟩
            refine ⟨found, List.mem_cons_of_mem _ member, has, ?_⟩
            intro Result f others
            rw [List.flatMap_cons, only f fun other inRest =>
              others other (List.mem_cons_of_mem _ inRest),
              others item List.mem_cons_self, List.nil_append]
            rw [shape]
            exact fun has => here has.2

/-- A piece ends at the end of the chain or where another piece starts. -/
theorem stop_or_start {start stop : Nat} {pieces : List Piece}
    (chain : Chain start pieces stop) {piece : Piece}
    (member : piece ∈ pieces) :
    piece.start + piece.width = stop ∨
      ∃ next, next ∈ pieces ∧
        next.start = piece.start + piece.width := by
  induction chain with
  | nil start => cases member
  | @cons start width stop rest positive tail ih =>
      rcases List.mem_cons.mp member with rfl | later
      · cases tail with
        | nil => exact Or.inl rfl
        | cons nextPositive tail =>
            exact Or.inr ⟨_, List.mem_cons_of_mem _ List.mem_cons_self, rfl⟩
      · rcases ih later with last | ⟨next, nextMember, follows⟩
        · exact Or.inl last
        · exact Or.inr ⟨next, List.mem_cons_of_mem _ nextMember, follows⟩

theorem shift {start stop : Nat} {pieces : List Piece}
    (chain : Chain start pieces stop) (offset : Nat) :
    Chain (offset + start)
      (pieces.map fun piece => ⟨offset + piece.start, piece.width⟩)
      (offset + stop) := by
  induction chain with
  | nil start => exact .nil _
  | cons positive rest ih =>
      rw [← Nat.add_assoc] at ih
      exact .cons positive ih

/-- The pieces of consecutive workers form one chain. -/
theorem flatMap_range {cut : Nat → Nat} {pieces : Nat → List Piece}
    (ways : Nat)
    (workers : ∀ way, way < ways →
      Chain (cut way) (pieces way) (cut (way + 1))) :
    Chain (cut 0) ((List.range ways).flatMap pieces) (cut ways) := by
  induction ways with
  | zero => exact .nil _
  | succ ways ih =>
      rw [List.range_succ, List.flatMap_append, List.flatMap_singleton]
      exact (ih fun way below => workers way (Nat.lt_succ_of_lt below)).append
        (workers ways (Nat.lt_succ_self ways))

/-- Pad every piece of a chain with aligned starts. -/
theorem roundUp {block start stop : Nat} {pieces : List Piece}
    (positive : 0 < block) (chain : Chain start pieces stop)
    (aligned : ∀ piece, piece ∈ pieces → block ∣ piece.start)
    (startAligned : block ∣ start) :
    Chain start
      (pieces.map fun piece => ⟨piece.start, roundUp piece.width block⟩)
      (roundUp stop block) := by
  induction chain with
  | nil start =>
      rw [roundUp_of_dvd positive startAligned]
      exact .nil start
  | @cons start width stop rest nonempty tail ih =>
      have restAligned : ∀ piece, piece ∈ rest → block ∣ piece.start :=
        fun piece member => aligned piece (List.mem_cons_of_mem _ member)
      have padded : 0 < Rounding.roundUp width block :=
        roundUp_pos positive nonempty
      rw [List.map_cons]
      cases tail with
      | nil =>
          rw [roundUp_add_of_dvd positive startAligned]
          exact .cons padded (.nil _)
      | @cons _ nextWidth _ rest nextPositive tail =>
          have nextAligned : block ∣ start + width :=
            restAligned ⟨start + width, nextWidth⟩ List.mem_cons_self
          have exactWidth : Rounding.roundUp width block = width :=
            roundUp_of_dvd positive
              ((Nat.dvd_add_right startAligned).mp nextAligned)
          have tailChain := ih restAligned nextAligned
          apply Chain.cons padded
          rw [exactWidth]
          exact tailChain

end Chain

end AoclDlp.Foundations.Span
