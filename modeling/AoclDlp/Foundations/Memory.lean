import Mathlib.Data.Nat.Basic
import Mathlib.Data.List.Basic
import Mathlib.Algebra.Order.Ring.Nat

/-!
# Cell-addressed memory

Memory is a function from addresses to cells.  Two bulk operations are needed:
filling an interval and copying a block.  Copies of equal-sized elements at
multiples of the element size act on elements, and a list of copies is
determined by the set of its moves as soon as equal destinations have equal
sources.  A sequence of patches, each of which overwrites a fixed set of
addresses with values that do not depend on the memory before, is likewise
determined by the set of its patches.  A list of changes acts on every cell
through the changes at that cell.
-/

namespace AoclDlp.Foundations.Memory

universe u v

variable {Cell : Type u}

/-- Overwrite `[start, start + count)` with one value. -/
def fill (start count : Nat) (value : Cell) (memory : Nat → Cell) :
    Nat → Cell :=
  fun address =>
    if start ≤ address ∧ address < start + count then value
    else memory address

/-- Copy `size` cells from `src` of `source` to `dst` of `target`. -/
def copyBlock (size dst src : Nat) (source target : Nat → Cell) :
    Nat → Cell :=
  fun address =>
    if dst ≤ address ∧ address < dst + size then
      source (src + (address - dst))
    else target address

/-- A list of element copies, each a pair of destination and source. -/
def copyElems (size : Nat) (moves : List (Nat × Nat))
    (source target : Nat → Cell) : Nat → Cell :=
  moves.foldl
    (fun memory move =>
      copyBlock size (move.1 * size) (move.2 * size) source memory)
    target

theorem fill_inside {start count address : Nat} (value : Cell)
    (memory : Nat → Cell) (lower : start ≤ address)
    (upper : address < start + count) :
    fill start count value memory address = value :=
  if_pos ⟨lower, upper⟩

theorem fill_outside {start count address : Nat} (value : Cell)
    (memory : Nat → Cell)
    (outside : ¬ (start ≤ address ∧ address < start + count)) :
    fill start count value memory address = memory address :=
  if_neg outside

section Element

variable {size : Nat}

theorem element_bounds_iff (positive : 0 < size) {element address : Nat} :
    (element * size ≤ address ∧ address < element * size + size) ↔
      address / size = element := by
  constructor
  · rintro ⟨lower, upper⟩
    exact Nat.div_eq_of_lt_le lower (by rwa [Nat.add_mul, Nat.one_mul])
  · rintro rfl
    exact ⟨Nat.div_mul_le_self _ _, Nat.lt_div_mul_add positive⟩

theorem element_of_byte (positive : 0 < size) (element : Nat) {byte : Nat}
    (inside : byte < size) :
    (element * size + byte) / size = element ∧
      (element * size + byte) % size = byte := by
  rw [Nat.add_comm, Nat.add_mul_div_right _ _ positive,
    Nat.div_eq_of_lt inside, Nat.zero_add, Nat.add_mul_mod_self_right,
    Nat.mod_eq_of_lt inside]
  exact ⟨rfl, rfl⟩

theorem copyBlock_hit (positive : 0 < size) {dst address : Nat} (src : Nat)
    (source target : Nat → Cell) (hit : address / size = dst) :
    copyBlock size (dst * size) (src * size) source target address =
      source (src * size + address % size) := by
  have bounds := (element_bounds_iff positive).mpr hit
  have split := Nat.div_add_mod address size
  rw [hit, Nat.mul_comm] at split
  rw [copyBlock, if_pos bounds, ← split, Nat.add_sub_cancel_left,
    Nat.mul_add_mod_self_right, Nat.mod_mod]

theorem copyBlock_miss (positive : 0 < size) {dst address : Nat} (src : Nat)
    (source target : Nat → Cell) (miss : address / size ≠ dst) :
    copyBlock size (dst * size) (src * size) source target address =
      target address :=
  if_neg fun bounds => miss ((element_bounds_iff positive).mp bounds)

/-- What holds of all cells and of the value survives a fill. -/
theorem fill_all {Property : Cell → Prop} {value : Cell}
    {memory : Nat → Cell} (ofValue : Property value)
    (ofMemory : ∀ address, Property (memory address))
    (start count address : Nat) :
    Property (fill start count value memory address) := by
  unfold fill
  split
  · exact ofValue
  · exact ofMemory address

/-- What holds of all cells of the source and of the target survives
copies. -/
theorem copyElems_all {Property : Cell → Prop} (moves : List (Nat × Nat))
    {source target : Nat → Cell}
    (ofSource : ∀ address, Property (source address))
    (ofTarget : ∀ address, Property (target address)) (address : Nat) :
    Property (copyElems size moves source target address) := by
  induction moves generalizing target with
  | nil => exact ofTarget address
  | cons move rest ih =>
      apply ih
      intro other
      change Property (copyBlock size _ _ source target other)
      unfold copyBlock
      split
      · exact ofSource _
      · exact ofTarget other

/-- Addresses whose element is no destination keep their cell. -/
theorem copyElems_frame (positive : 0 < size) (moves : List (Nat × Nat))
    (source target : Nat → Cell) {address : Nat}
    (untouched : ∀ move, move ∈ moves → move.1 ≠ address / size) :
    copyElems size moves source target address = target address := by
  induction moves generalizing target with
  | nil => rfl
  | cons move rest ih =>
      have tail := ih
        (copyBlock size (move.1 * size) (move.2 * size) source target)
        fun other member => untouched other (List.mem_cons_of_mem _ member)
      have head := copyBlock_miss positive move.2 source target
        (untouched move List.mem_cons_self).symm
      exact tail.trans head

/-- A copied cell depends on the target only through that cell. -/
theorem copyElems_congr (moves : List (Nat × Nat))
    {source left right : Nat → Cell} {address : Nat}
    (same : left address = right address) :
    copyElems size moves source left address =
      copyElems size moves source right address := by
  induction moves generalizing left right with
  | nil => exact same
  | cons move rest ih =>
      apply ih
      simp only [copyBlock, same]

/-- The sources of a list of copies matter only at the moved elements. -/
theorem copyElems_congr_source {moves : List (Nat × Nat)}
    {source other : Nat → Cell}
    (same : ∀ move, move ∈ moves → ∀ byte, byte < size →
      source (move.2 * size + byte) = other (move.2 * size + byte))
    (target : Nat → Cell) :
    copyElems size moves source target = copyElems size moves other target := by
  induction moves generalizing target with
  | nil => rfl
  | cons move rest ih =>
      have head : copyBlock size (move.1 * size) (move.2 * size) source
          target =
            copyBlock size (move.1 * size) (move.2 * size) other target := by
        funext address
        unfold copyBlock
        split_ifs with inside
        · exact same move List.mem_cons_self _ (by omega)
        · rfl
      unfold copyElems at ih ⊢
      rw [List.foldl_cons, List.foldl_cons, head]
      exact ih (fun other member =>
        same other (List.mem_cons_of_mem _ member)) _

/-- Sources that are read further on. -/
theorem copyElems_shift (moves : List (Nat × Nat)) (shift : Nat)
    (source target : Nat → Cell) :
    copyElems size (moves.map fun move => (move.1, shift + move.2)) source
        target =
      copyElems size moves (fun address => source (shift * size + address))
        target := by
  induction moves generalizing target with
  | nil => rfl
  | cons move rest ih =>
      have head : copyBlock size (move.1 * size) ((shift + move.2) * size)
          source target =
            copyBlock size (move.1 * size) (move.2 * size)
              (fun address => source (shift * size + address)) target := by
        funext address
        simp only [copyBlock, Nat.add_mul, Nat.add_assoc]
      rw [List.map_cons]
      change copyElems size _ source (copyBlock size (move.1 * size)
        ((shift + move.2) * size) source target) = _
      rw [head, ih]
      rfl

/-- A destination with a single source receives that source's element. -/
theorem copyElems_hit (positive : 0 < size) (moves : List (Nat × Nat))
    (source target : Nat → Cell) {address src : Nat}
    (member : (address / size, src) ∈ moves)
    (functional : ∀ move, move ∈ moves → move.1 = address / size →
      move.2 = src) :
    copyElems size moves source target address =
      source (src * size + address % size) := by
  induction moves generalizing target with
  | nil => cases member
  | cons move rest ih =>
      have restFunctional : ∀ other, other ∈ rest →
          other.1 = address / size → other.2 = src :=
        fun other inRest => functional other (List.mem_cons_of_mem _ inRest)
      by_cases again : (address / size, src) ∈ rest
      · exact ih _ again restFunctional
      · have head : (address / size, src) = move :=
          (List.mem_cons.mp member).resolve_right again
        have untouched : ∀ other, other ∈ rest →
            other.1 ≠ address / size := by
          intro other inRest same
          apply again
          rw [← same, ← restFunctional other inRest same]
          exact inRest
        have frame := copyElems_frame positive rest source
          (copyBlock size (move.1 * size) (move.2 * size) source target)
          untouched
        refine frame.trans ?_
        rw [← head]
        exact copyBlock_hit positive src source target rfl

/-- Copies to moved destinations leave moved cells. -/
theorem copyElems_moved (moves : List (Nat × Nat))
    {source left right : Nat → Cell} {a b offset : Nat}
    (same : left (a * size + offset) = right (b * size + offset)) :
    copyElems size (moves.map fun move => (a + move.1, move.2)) source left
        (a * size + offset) =
      copyElems size (moves.map fun move => (b + move.1, move.2)) source
        right (b * size + offset) := by
  induction moves generalizing left right with
  | nil => exact same
  | cons move rest ih =>
      rw [List.map_cons, List.map_cons]
      apply ih
      simp only [copyBlock, Nat.add_mul, Nat.add_assoc,
        Nat.add_le_add_iff_left, Nat.add_lt_add_iff_left,
        Nat.add_sub_add_left, same]

end Element

/-- A loop that stores to distinct addresses leaves each of its values. -/
theorem foldl_update_range {place : Nat → Nat}
    (distinct : Function.Injective place) (value : Nat → Cell)
    (memory : Nat → Cell) {count index : Nat} (below : index < count) :
    (List.range count).foldl
        (fun current i => Function.update current (place i) (value i)) memory
        (place index) = value index := by
  induction count with
  | zero => exact absurd below (Nat.not_lt_zero index)
  | succ count ih =>
      rw [List.range_succ, List.foldl_append, List.foldl_cons,
        List.foldl_nil]
      by_cases last : index = count
      · rw [last, Function.update_self]
      · rw [Function.update_of_ne fun same => last (distinct same)]
        exact ih (by omega)

/-- A loop that stores elsewhere keeps a cell. -/
theorem foldl_update_frame {place : Nat → Nat} (value : Nat → Cell)
    (memory : Nat → Cell) {indices : List Nat} {address : Nat}
    (elsewhere : ∀ index, index ∈ indices → place index ≠ address) :
    indices.foldl
        (fun current i => Function.update current (place i) (value i)) memory
        address = memory address := by
  induction indices generalizing memory with
  | nil => rfl
  | cons index rest ih =>
      rw [List.foldl_cons, ih _ fun other member =>
        elsewhere other (List.mem_cons_of_mem _ member)]
      exact Function.update_of_ne
        (elsewhere index List.mem_cons_self).symm _ _

/-! ## Patches -/

section Patches

variable {Op : Type v}

/-- Each operation overwrites its own addresses independently of the past. -/
structure Patches (run : Op → (Nat → Cell) → Nat → Cell)
    (Touches : Op → Nat → Prop) (value : Op → Nat → Cell) (op : Op) :
    Prop where
  hit : ∀ memory address, Touches op address →
    run op memory address = value op address
  frame : ∀ memory address, ¬ Touches op address →
    run op memory address = memory address

variable {run : Op → (Nat → Cell) → Nat → Cell}
    {Touches : Op → Nat → Prop} {value : Op → Nat → Cell}

theorem foldl_patch_frame {ops : List Op}
    (patches : ∀ op, op ∈ ops → Patches run Touches value op)
    (memory : Nat → Cell) {address : Nat}
    (untouched : ∀ op, op ∈ ops → ¬ Touches op address) :
    ops.foldl (fun current op => run op current) memory address =
      memory address := by
  induction ops generalizing memory with
  | nil => rfl
  | cons op rest ih =>
      rw [List.foldl_cons,
        ih (fun other member => patches other (List.mem_cons_of_mem _ member))
          _ fun other member =>
            untouched other (List.mem_cons_of_mem _ member)]
      exact (patches op List.mem_cons_self).frame memory address
        (untouched op List.mem_cons_self)

/-- If all patches of an address agree there, their order is irrelevant. -/
theorem foldl_patch_hit {ops : List Op}
    (patches : ∀ op, op ∈ ops → Patches run Touches value op)
    (memory : Nat → Cell) {address : Nat} {result : Cell}
    (touched : ∃ op, op ∈ ops ∧ Touches op address)
    (agree : ∀ op, op ∈ ops → Touches op address →
      value op address = result) :
    ops.foldl (fun current op => run op current) memory address =
      result := by
  induction ops generalizing memory with
  | nil =>
      rcases touched with ⟨op, member, _⟩
      cases member
  | cons op rest ih =>
      have restPatches : ∀ other, other ∈ rest →
          Patches run Touches value other :=
        fun other member => patches other (List.mem_cons_of_mem _ member)
      rw [List.foldl_cons]
      by_cases later : ∃ other, other ∈ rest ∧ Touches other address
      · exact ih restPatches _ later fun other member =>
          agree other (List.mem_cons_of_mem _ member)
      · have here : Touches op address := by
          rcases touched with ⟨other, member, touches⟩
          rcases List.mem_cons.mp member with rfl | inRest
          · exact touches
          · exact absurd ⟨other, inRest, touches⟩ later
        rw [foldl_patch_frame restPatches _ fun other member touches =>
          later ⟨other, member, touches⟩]
        rw [(patches op List.mem_cons_self).hit memory address here]
        exact agree op List.mem_cons_self here

end Patches

/-! ## Changes -/

/-- Change one cell. -/
def changeAt (address : Nat) (change : Cell → Cell) (memory : Nat → Cell) :
    Nat → Cell :=
  fun cell => if cell = address then change (memory cell) else memory cell

/-- A list of changes, each a pair of an address and what happens there. -/
def changeAll (changes : List (Nat × (Cell → Cell)))
    (memory : Nat → Cell) : Nat → Cell :=
  changes.foldl (fun current change => changeAt change.1 change.2 current)
    memory

/-- A cell sees the changes at its own address. -/
theorem changeAll_apply (changes : List (Nat × (Cell → Cell)))
    (memory : Nat → Cell) (address : Nat) :
    changeAll changes memory address =
      (changes.filter fun change => change.1 = address).foldl
        (fun value change => change.2 value) (memory address) := by
  induction changes generalizing memory with
  | nil => rfl
  | cons change rest ih =>
      have step : changeAll (change :: rest) memory =
          changeAll rest (changeAt change.1 change.2 memory) := rfl
      rw [step, ih]
      by_cases here : change.1 = address
      · rw [List.filter_cons_of_pos (by simpa using here), List.foldl_cons]
        simp [changeAt, here]
      · rw [List.filter_cons_of_neg (by simpa using here)]
        simp [changeAt, Ne.symm here]

end AoclDlp.Foundations.Memory
