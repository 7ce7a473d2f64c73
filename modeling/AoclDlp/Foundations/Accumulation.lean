import AoclDlp.Foundations.Span
import Mathlib.Algebra.BigOperators.Group.List.Basic

/-!
# Accumulation into memory cells

A loop nest that adds values to cells of a memory is determined, cell by cell,
by the sum of the values added there; the order of the additions does not
matter.  Sums over the indices of consecutive pieces are sums over the whole
range of the chain.
-/

namespace AoclDlp.Foundations.Accumulation

open AoclDlp.Foundations.Span

universe u v

variable {Value : Type u} [AddCommMonoid Value]

/-- Add a value to one cell. -/
def addAt (address : Nat) (value : Value) (memory : Nat → Value) :
    Nat → Value :=
  fun cell =>
    if cell = address then memory cell + value else memory cell

/-- A list of additions, each a pair of an address and a value. -/
def addAll (writes : List (Nat × Value)) (memory : Nat → Value) :
    Nat → Value :=
  writes.foldl (fun current write => addAt write.1 write.2 current) memory

/-- What a list of additions adds to one cell. -/
def addedAt (writes : List (Nat × Value)) (address : Nat) : Value :=
  (writes.map fun write => if address = write.1 then write.2 else 0).sum

theorem addAll_apply (writes : List (Nat × Value)) (memory : Nat → Value)
    (address : Nat) :
    addAll writes memory address =
      memory address + addedAt writes address := by
  induction writes generalizing memory with
  | nil => simp [addAll, addedAt]
  | cons write rest ih =>
      have step : addAll (write :: rest) memory =
          addAll rest (addAt write.1 write.2 memory) := rfl
      have head : addAt write.1 write.2 memory address =
          memory address + if address = write.1 then write.2 else 0 := by
        unfold addAt
        split
        · rfl
        · exact (add_zero _).symm
      rw [step, ih, head, addedAt, addedAt, List.map_cons, List.sum_cons,
        add_assoc]

theorem addedAt_perm {left right : List (Nat × Value)}
    (perm : left.Perm right) (address : Nat) :
    addedAt left address = addedAt right address :=
  (perm.map _).sum_eq

theorem sum_map_flatMap {Index : Type u} {Item : Type v}
    (indices : List Index) (items : Index → List Item)
    (value : Item → Value) :
    ((indices.flatMap items).map value).sum =
      (indices.map fun index => ((items index).map value).sum).sum := by
  induction indices with
  | nil => rfl
  | cons index rest ih =>
      rw [List.flatMap_cons, List.map_append, List.sum_append, ih,
        List.map_cons, List.sum_cons]

/-- Sums over the pieces of a chain are sums over its range. -/
theorem sum_chain {start stop : Nat} {pieces : List Piece}
    (chain : Chain start pieces stop) (value : Nat → Value) :
    (pieces.map fun piece =>
        ((List.range piece.width).map fun i =>
          value (piece.start + i)).sum).sum =
      ((List.range' start (stop - start)).map value).sum := by
  induction chain with
  | nil start => simp
  | @cons start width stop rest positive tail ih =>
      have split : stop - start = width + (stop - (start + width)) := by
        have bound := tail.le
        omega
      have head : ((List.range width).map fun i => value (start + i)) =
          (List.range' start width).map value := by
        rw [List.range'_eq_map_range, List.map_map]
        rfl
      rw [List.map_cons, List.sum_cons, ih, head, split,
        ← List.range'_append_1, List.map_append, List.sum_append]

/-- At most one index of a piece contributes. -/
theorem sum_range_indicator (start width index : Nat)
    (value : Nat → Value) :
    ((List.range width).map fun i =>
        if index = start + i then value i else 0).sum =
      if start ≤ index ∧ index < start + width then value (index - start)
      else 0 := by
  by_cases inside : start ≤ index ∧ index < start + width
  · rw [if_pos inside]
    rcases Nat.exists_eq_add_of_le inside.1 with ⟨i, rfl⟩
    have member : i ∈ List.range width :=
      List.mem_range.mpr (Nat.lt_of_add_lt_add_left inside.2)
    rw [List.sum_map_eq_nsmul_single i _ fun other different _ =>
        if_neg fun same => different (Nat.add_left_cancel same).symm,
      List.nodup_range.count, if_pos member, one_nsmul, if_pos rfl,
      Nat.add_sub_cancel_left]
  · rw [if_neg inside]
    apply List.sum_eq_zero
    intro term member
    rcases List.mem_map.mp member with ⟨i, below, rfl⟩
    apply if_neg
    rintro rfl
    exact inside ⟨Nat.le_add_right _ _,
      Nat.add_lt_add_left (List.mem_range.mp below) _⟩

/-- Only the piece of a chain that holds the index contributes. -/
theorem sum_chain_has {start stop : Nat} {pieces : List Piece}
    (chain : Chain start pieces stop) (index : Nat) (value : Value) :
    (pieces.map fun piece =>
        if piece.start ≤ index ∧ index < piece.start + piece.width then value
        else 0).sum =
      if start ≤ index ∧ index < stop then value else 0 := by
  have single := sum_range_indicator start (stop - start) index
    fun _ => value
  rw [Nat.add_sub_of_le chain.le] at single
  calc
    _ = (pieces.map fun piece =>
          ((List.range piece.width).map fun i =>
            if index = piece.start + i then value else 0).sum).sum := by
      simp only [sum_range_indicator]
    _ = ((List.range' start (stop - start)).map fun i =>
          if index = i then value else 0).sum :=
      sum_chain chain fun i => if index = i then value else 0
    _ = if start ≤ index ∧ index < stop then value else 0 := by
      rw [List.range'_eq_map_range, List.map_map]
      exact single

/-- Exactly one piece of a chain contributes. -/
theorem sum_chain_indicator {start stop : Nat} {pieces : List Piece}
    (chain : Chain start pieces stop) {index : Nat} (lower : start ≤ index)
    (upper : index < stop) (value : Value) :
    (pieces.map fun piece =>
        if piece.start ≤ index ∧ index < piece.start + piece.width then value
        else 0).sum = value := by
  rw [sum_chain_has chain, if_pos ⟨lower, upper⟩]

/-- A sum over the indices of a chain, piece by piece, where the pieces of one
class contribute and the class of a piece is the class of its indices. -/
theorem sum_chain_class {start stop : Nat} {Item : Type v}
    {items : List Item} {piece : Item → Piece}
    (chain : Chain start (items.map piece) stop) (Chosen : Item → Prop)
    [DecidablePred Chosen] (Of : Nat → Prop) [DecidablePred Of]
    (sorted : ∀ item, item ∈ items → ∀ index, (piece item).Has index →
      (Of index ↔ Chosen item))
    (value : Nat → Value) :
    (items.map fun item =>
        if Chosen item then
          ((List.range (piece item).width).map fun i =>
            value ((piece item).start + i)).sum
        else 0).sum =
      ((List.range' start (stop - start)).map fun index =>
        if Of index then value index else 0).sum := by
  have whole := sum_chain chain fun index =>
    if Of index then value index else 0
  rw [← whole, List.map_map]
  congr 1
  apply List.map_congr_left
  intro item member
  have same (i : Nat) (inside : i ∈ List.range (piece item).width) :
      Of ((piece item).start + i) ↔ Chosen item :=
    sorted item member _ ⟨Nat.le_add_right _ _,
      Nat.add_lt_add_left (List.mem_range.mp inside) _⟩
  by_cases chosen : Chosen item
  · rw [if_pos chosen]
    congr 1
    apply List.map_congr_left
    intro i inside
    rw [if_pos ((same i inside).mpr chosen)]
  · rw [if_neg chosen]
    symm
    apply List.sum_eq_zero
    intro term inTerms
    rcases List.mem_map.mp inTerms with ⟨i, inside, rfl⟩
    exact if_neg fun of => chosen ((same i inside).mp of)

theorem sum_map_filter {Item : Type v} (items : List Item)
    (Keeps : Item → Prop) [DecidablePred Keeps] (value : Item → Value) :
    ((items.filter fun item => Keeps item).map value).sum =
      (items.map fun item => if Keeps item then value item else 0).sum := by
  induction items with
  | nil => rfl
  | cons item rest ih =>
      rw [List.map_cons, List.sum_cons, ← ih, List.filter_cons]
      by_cases keeps : Keeps item
      · rw [if_pos (decide_eq_true keeps), if_pos keeps, List.map_cons,
          List.sum_cons]
      · rw [if_neg (by simpa using keeps), if_neg keeps, zero_add]

end AoclDlp.Foundations.Accumulation
