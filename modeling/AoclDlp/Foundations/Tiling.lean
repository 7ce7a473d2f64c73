import AoclDlp.Foundations.Memory
import AoclDlp.Foundations.Span
import Mathlib.Data.Multiset.Bind

/-!
# Grids walked tile by tile

A loop nest visits the points of a grid in the order of its tiles.  When the
tile rows and the tile columns are chains, the nest visits every point once, so
it handles the points of a walk of the whole grid in another order.  Changes of
a memory commute as soon as equal addresses mean equal changes.
-/

namespace AoclDlp.Foundations.Tiling

open AoclDlp.Foundations.Memory
open AoclDlp.Foundations.Span

universe u

variable {Item : Type u}

/-- The indices of a piece. -/
def indices (piece : Piece) : List Nat :=
  List.range' piece.start piece.width

/-- The items of a tile, row by row. -/
def tileItems (item : Nat → Nat → Item) (row column : Piece) : List Item :=
  (indices row).flatMap fun i => (indices column).map (item i)

theorem mem_indices {piece : Piece} {index : Nat} :
    index ∈ indices piece ↔ piece.Has index := by
  unfold indices Piece.Has
  rw [List.mem_range'_1]

theorem mem_tileItems {item : Nat → Nat → Item} {row column : Piece}
    {found : Item} :
    found ∈ tileItems item row column ↔
      ∃ i j, row.Has i ∧ column.Has j ∧ item i j = found := by
  unfold tileItems
  constructor
  · intro member
    rcases List.mem_flatMap.mp member with ⟨i, inRow, inColumn⟩
    rcases List.mem_map.mp inColumn with ⟨j, inside, same⟩
    exact ⟨i, j, mem_indices.mp inRow, mem_indices.mp inside, same⟩
  · rintro ⟨i, j, inRow, inColumn, same⟩
    exact List.mem_flatMap.mpr ⟨i, mem_indices.mpr inRow,
      List.mem_map.mpr ⟨j, mem_indices.mpr inColumn, same⟩⟩

/-- A tile of a shifted grid is a shifted tile. -/
theorem tileItems_shift (item : Nat → Nat → Item) (row column : Piece) :
    tileItems (fun i j => item (row.start + i) (column.start + j))
        ⟨0, row.width⟩ ⟨0, column.width⟩ =
      tileItems item row column := by
  have shifted (piece : Piece) :
      indices piece = (indices ⟨0, piece.width⟩).map (piece.start + ·) := by
    unfold indices
    rw [List.map_add_range', Nat.add_zero]
  unfold tileItems
  rw [shifted row, shifted column, List.flatMap_map]
  apply List.flatMap_congr
  intro i _
  rw [List.map_map]
  rfl

theorem tileItems_congr {left right : Nat → Nat → Item} {row column : Piece}
    (same : ∀ i j, row.Has i → column.Has j → left i j = right i j) :
    tileItems left row column = tileItems right row column := by
  unfold tileItems
  apply List.flatMap_congr
  intro i inRow
  apply List.map_congr_left
  intro j inColumn
  exact same i j (mem_indices.mp inRow) (mem_indices.mp inColumn)

/-- The pieces of a chain hold consecutive indices. -/
theorem chain_indices {start stop : Nat} {pieces : List Piece}
    (chain : Chain start pieces stop) :
    pieces.flatMap indices = indices ⟨start, stop - start⟩ := by
  induction chain with
  | nil start =>
      rw [Nat.sub_self]
      rfl
  | @cons start width stop rest positive tail ih =>
      have reach := tail.le
      rw [List.flatMap_cons, ih]
      unfold indices
      dsimp only
      rw [List.range'_append_1]
      congr 1
      omega

/-- A grid walked tile by tile is the grid in another order. -/
theorem tiles_perm {rows columns : List Piece} {m n : Nat}
    (rowChain : Chain 0 rows m) (columnChain : Chain 0 columns n)
    (item : Nat → Nat → Item) :
    (columns.flatMap fun column =>
        rows.flatMap fun row => tileItems item row column).Perm
      (tileItems item ⟨0, m⟩ ⟨0, n⟩) := by
  have rowIndices := chain_indices rowChain
  have columnIndices := chain_indices columnChain
  rw [Nat.sub_zero] at rowIndices columnIndices
  have wholeRows (column : Piece) :
      (rows.flatMap fun row => tileItems item row column) =
        (indices ⟨0, m⟩).flatMap fun i => (indices column).map (item i) := by
    unfold tileItems
    rw [← rowIndices, List.flatMap_assoc]
  have wholeColumns : tileItems item ⟨0, m⟩ ⟨0, n⟩ =
      (indices ⟨0, m⟩).flatMap fun i =>
        columns.flatMap fun column => (indices column).map (item i) := by
    unfold tileItems
    rw [← columnIndices]
    apply List.flatMap_congr
    intro i _
    rw [List.map_flatMap]
  simp only [wholeRows]
  rw [wholeColumns]
  apply Multiset.coe_eq_coe.mp
  simp only [← Multiset.coe_bind]
  exact Multiset.bind_bind _ _

/-- Changes in another order leave the same memory. -/
theorem changeAll_perm {Cell : Type u}
    {left right : List (Nat × (Cell → Cell))} (perm : left.Perm right)
    (functional : ∀ change, change ∈ left → ∀ other, other ∈ left →
      change.1 = other.1 → change = other) (memory : Nat → Cell) :
    changeAll left memory = changeAll right memory := by
  unfold changeAll
  apply perm.foldl_eq'
  intro change member other otherMember current
  by_cases same : change.1 = other.1
  · rw [functional change member other otherMember same]
  · funext address
    unfold changeAt
    by_cases first : address = change.1
    · have apart : address ≠ other.1 := fun second =>
        same (first.symm.trans second)
      simp [first, same]
    · by_cases second : address = other.1
      · have apart : other.1 ≠ change.1 := Ne.symm same
        simp [second, apart]
      · simp [first, second]

end AoclDlp.Foundations.Tiling
