import AoclDlp.Gemm.Rowvar

/-!
# Output elements of the five-loop

A kernel call whose B operand is the matrix changes each element of its tile
by one step of the `k` loop.  The calls of a thread reach an element once per
`pc` step, in order, and the changes of all `pc` steps together are the scaled
product: the compensation of the last step cancels the offset of A over all of
`k`.
-/

namespace AoclDlp.Gemm.Cells

open AoclDlp.Foundations.Rounding
open AoclDlp.Foundations.Span
open AoclDlp.Gemm.Rowvar
open AoclDlp.Layout.Panel
open AoclDlp.Layout.S8s8s32

/-! ## Changes of a call -/

/-- The widened element `(i, p)` of A. -/
def aElement (args : GemmArgs) (i p : Nat) : BitVec 32 :=
  widen (args.a (args.rsA * i + args.csA * p))

/-- The compensated column of B. -/
def columnTotal (args : GemmArgs) (bElement : Nat → Nat → BitVec 32)
    (j : Nat) : BitVec 32 :=
  128 * ((List.range args.k).map fun p => bElement p j).sum

/-- What one `pc` step does to an output element. -/
def cellChange (args : GemmArgs) (bElement : Nat → Nat → BitVec 32)
    (i j : Nat) (row : Piece) (c : BitVec 32) : BitVec 32 :=
  args.beta0 row.start * c + args.alpha *
    (((List.range row.width).map fun kr =>
        (aElement args i (row.start + kr) + 128) *
          bElement (row.start + kr) j).sum -
      if args.IsLastK row.start then columnTotal args bElement j else 0)

/-- The changes of a call whose B operand is the matrix. -/
def matrixUpdates (args : GemmArgs) (bElement : Nat → Nat → BitVec 32)
    (call : KernelCall) : List (Nat × (BitVec 32 → BitVec 32)) :=
  (List.range call.mc0).flatMap fun i =>
    (List.range call.nr0).map fun j =>
      (call.jc + args.rsC * call.ic + call.jr + (args.rsC * i + j),
        cellChange args bElement (call.ic + i) (call.jc + call.jr + j)
          ⟨call.pc, call.kc0⟩)

/-- A call reads its strip of B, and in the last `pc` step the sums of its
columns. -/
structure ReadsMatrix (args : GemmArgs) (bElement : Nat → Nat → BitVec 32)
    (buffer : ReorderBuffer) (call : KernelCall) : Prop where
  strip : ∀ kr j, kr < call.kc0 → j < call.nr0 →
    widen (buffer.image (args.stripAddress call kr j)) =
      bElement (call.pc + kr) (call.jc + call.jr + j)
  sums : args.IsLastK call.pc → ∀ j, j < call.nr0 →
    buffer.words (call.bColSumVec + 4 * (call.bSumOffset + j)) =
      columnTotal args bElement (call.jc + call.jr + j)

variable {args : GemmArgs} {bElement : Nat → Nat → BitVec 32}

theorem kernelUpdates_eq {buffer : ReorderBuffer} {call : KernelCall}
    (reads : ReadsMatrix args bElement buffer call) :
    args.kernelUpdates buffer call = matrixUpdates args bElement call := by
  unfold GemmArgs.kernelUpdates matrixUpdates
  apply List.flatMap_congr
  intro i _
  apply List.map_congr_left
  intro j inRange
  have column : j < call.nr0 := List.mem_range.mp inRange
  have dot : args.accumulator buffer call i j =
      ((List.range call.kc0).map fun kr =>
        (aElement args (call.ic + i) (call.pc + kr) + 128) *
          bElement (call.pc + kr) (call.jc + call.jr + j)).sum := by
    unfold GemmArgs.accumulator
    congr 1
    apply List.map_congr_left
    intro kr row
    rw [reads.strip kr j (List.mem_range.mp row) column, aElement]
    congr 4
    ring
  have sums : args.compensation buffer call j =
      if args.IsLastK call.pc then
        columnTotal args bElement (call.jc + call.jr + j)
      else 0 := by
    unfold GemmArgs.compensation
    by_cases last : args.IsLastK call.pc
    · rw [if_pos last, if_pos last, reads.sums last j column]
    · rw [if_neg last, if_neg last]
  rw [dot, sums]
  rfl

/-! ## The changes at one element -/

theorem range_flatMap {Result : Type} {count : Nat} (index : Nat)
    (below : index < count) (f : Nat → List Result)
    (others : ∀ other, other < count → other ≠ index → f other = []) :
    (List.range count).flatMap f = f index := by
  induction count with
  | zero => exact absurd below (Nat.not_lt_zero index)
  | succ count ih =>
      rw [List.range_succ, List.flatMap_append, List.flatMap_singleton]
      rcases (Nat.le_of_lt_succ below).lt_or_eq with inner | last
      · rw [ih inner fun other inside =>
            others other (Nat.lt_succ_of_lt inside),
          others count (Nat.lt_succ_self count) inner.ne', List.append_nil]
      · rw [List.flatMap_eq_nil_iff.mpr, List.nil_append, last]
        intro other member
        have inside := List.mem_range.mp member
        exact others other (Nat.lt_succ_of_lt inside) (by omega)

theorem filter_change {Value : Type} (address key : Nat)
    (change : Value → Value) :
    [(key, change)].filter (fun change => change.1 = address) =
      if key = address then [(key, change)] else [] := by
  by_cases same : key = address
  · simp [same]
  · simp [same]

section Element

variable {i j : Nat}

/-- Addresses of the output tell its elements apart. -/
theorem cell_eq_iff (ldc : args.n ≤ args.rsC) (column : j < args.n)
    {row2 column2 : Nat} (column2Lt : column2 < args.n) :
    args.rsC * row2 + column2 = args.rsC * i + j ↔
      row2 = i ∧ column2 = j := by
  constructor
  · intro same
    rw [Nat.mul_comm args.rsC, Nat.mul_comm args.rsC] at same
    exact (mul_add_eq_iff (column2Lt.trans_le ldc)
      (column.trans_le ldc)).mp same
  · rintro ⟨rfl, rfl⟩
    rfl

/-- The element lies in the tile of a call. -/
def InTile (call : KernelCall) (i j : Nat) : Prop :=
  Piece.Has ⟨call.ic, call.mc0⟩ i ∧
    Piece.Has ⟨call.jc + call.jr, call.nr0⟩ j

theorem updates_filter_outside (ldc : args.n ≤ args.rsC)
    (column : j < args.n) {call : KernelCall}
    (inside : call.jc + call.jr + call.nr0 ≤ args.n)
    (outside : ¬ InTile call i j) :
    (matrixUpdates args bElement call).filter
      (fun change => change.1 = args.rsC * i + j) = [] := by
  rw [List.filter_eq_nil_iff]
  intro change member
  rcases List.mem_flatMap.mp member with ⟨i', row, inRow⟩
  rcases List.mem_map.mp inRow with ⟨j', col, rfl⟩
  rw [List.mem_range] at row col
  rw [decide_eq_true_eq]
  intro same
  have place : call.jc + args.rsC * call.ic + call.jr +
      (args.rsC * i' + j') =
        args.rsC * (call.ic + i') + (call.jc + call.jr + j') := by ring
  rw [place, cell_eq_iff ldc column (by omega)] at same
  apply outside
  refine ⟨⟨?_, ?_⟩, ⟨?_, ?_⟩⟩
  · change call.ic ≤ i
    omega
  · change i < call.ic + call.mc0
    omega
  · change call.jc + call.jr ≤ j
    omega
  · change j < call.jc + call.jr + call.nr0
    omega

theorem updates_filter_inside (ldc : args.n ≤ args.rsC)
    (column : j < args.n) {call : KernelCall}
    (inside : call.jc + call.jr + call.nr0 ≤ args.n)
    (inTile : InTile call i j) :
    (matrixUpdates args bElement call).filter
        (fun change => change.1 = args.rsC * i + j) =
      [(args.rsC * i + j,
        cellChange args bElement i j ⟨call.pc, call.kc0⟩)] := by
  rcases inTile with ⟨⟨rowLower, rowUpper⟩, ⟨columnLower, columnUpper⟩⟩
  dsimp only at rowLower rowUpper columnLower columnUpper
  rcases Nat.exists_eq_add_of_le rowLower with ⟨i', rfl⟩
  rcases Nat.exists_eq_add_of_le columnLower with ⟨j', rfl⟩
  have place (row col : Nat) :
      call.jc + args.rsC * call.ic + call.jr + (args.rsC * row + col) =
        args.rsC * (call.ic + row) + (call.jc + call.jr + col) := by ring
  have same (row col : Nat) (colLt : col < call.nr0) :
      (call.jc + args.rsC * call.ic + call.jr + (args.rsC * row + col) =
        args.rsC * (call.ic + i') + (call.jc + call.jr + j')) ↔
        row = i' ∧ col = j' := by
    rw [place, cell_eq_iff ldc column (by omega)]
    omega
  unfold matrixUpdates
  simp only [List.map_eq_flatMap, List.filter_flatMap]
  rw [range_flatMap i' (by omega)]
  · rw [range_flatMap j' (by omega)]
    · rw [filter_change, if_pos ((same i' j' (by omega)).mpr ⟨rfl, rfl⟩),
        place]
    · intro other below apart
      rw [filter_change, if_neg]
      rw [same i' other below]
      exact fun both => apart both.2
  · intro other _ apart
    rw [List.flatMap_eq_nil_iff]
    intro col member
    rw [filter_change, if_neg]
    rw [same other col (List.mem_range.mp member)]
    exact fun both => apart both.1

/-! ## The changes of a thread -/

/-- One row block of one step changes an element of its window once. -/
theorem jrLoop_filter (positive : 0 < args.blksz.NR)
    (ldc : args.n ≤ args.rsC) (column : j < args.n) (step : JcStep)
    (fits : step.jc + step.nc0 ≤ args.n) (row ic : Piece)
    (bUse bColSumVec : Nat) :
    ((jrLoop args.blksz.NR step row ic bUse bColSumVec step.nc0 0
        0).flatMap (matrixUpdates args bElement)).filter
        (fun change => change.1 = args.rsC * i + j) =
      if step.piece.Has j ∧ ic.Has i then
        [(args.rsC * i + j, cellChange args bElement i j row)]
      else [] := by
  have shape {call : KernelCall} (member : call ∈ jrLoop args.blksz.NR
      step row ic bUse bColSumVec step.nc0 0 0) :
      call.jc + call.jr + call.nr0 ≤ args.n ∧
        (InTile call i j ↔ Piece.Has ⟨call.jr, call.nr0⟩ (j - step.jc) ∧
          step.jc ≤ j ∧ ic.Has i) ∧
        (⟨call.pc, call.kc0⟩ : Piece) = row := by
    rcases jrLoop_mem (dvd_zero _) member with ⟨_, inside, same⟩
    rw [same]
    refine ⟨?_, ?_, rfl⟩
    · dsimp only
      omega
    · unfold InTile Piece.Has
      dsimp only
      omega
  rw [List.filter_flatMap]
  by_cases window : step.piece.Has j ∧ ic.Has i
  · rw [if_pos window]
    have lower : step.jc ≤ j := window.1.1
    have upper : j < step.jc + step.nc0 := window.1.2
    rcases (jrLoop_chain positive step row ic bUse bColSumVec).exists_flatMap
        (Nat.zero_le (j - step.jc)) (by omega) with
      ⟨call, member, has, only⟩
    rw [only]
    · rw [updates_filter_inside ldc column (shape member).1
        ((shape member).2.1.mpr ⟨has, lower, window.2⟩),
        (shape member).2.2]
    · intro other inLoop misses
      exact updates_filter_outside ldc column (shape inLoop).1
        fun inTile => misses ((shape inLoop).2.1.mp inTile).1
  · rw [if_neg window, List.flatMap_eq_nil_iff]
    intro call member
    apply updates_filter_outside ldc column (shape member).1
    intro inTile
    rcases (shape member).2.1.mp inTile with ⟨has, lower, rows⟩
    rcases jrLoop_mem (dvd_zero _) member with ⟨_, inside, same⟩
    rw [same] at has
    have upper := has.2
    dsimp only at upper
    apply window
    refine ⟨⟨lower, ?_⟩, rows⟩
    change j < step.jc + step.nc0
    omega

/-- The changes of a nest of loops over steps, rows and row blocks. -/
def nestUpdates (args : GemmArgs) (bElement : Nat → Nat → BitVec 32)
    (steps : List JcStep) (rows ics : List Piece)
    (bUse bColSumVec : JcStep → Piece → Nat) :
    List (Nat × (BitVec 32 → BitVec 32)) :=
  steps.flatMap fun step => rows.flatMap fun row => ics.flatMap fun ic =>
    (jrLoop args.blksz.NR step row ic (bUse step row)
      (bColSumVec step row) step.nc0 0 0).flatMap
        (matrixUpdates args bElement)

section Nest

variable {steps : List JcStep} {rows ics : List Piece}
    {bUse bColSumVec : JcStep → Piece → Nat}
    {first last icStart icStop : Nat}

/-- An element of the columns and rows of a nest is changed once per row of
the `k` loop. -/
theorem nestUpdates_inside (positive : 0 < args.blksz.NR)
    (ldc : args.n ≤ args.rsC) (below : j < args.n)
    (columns : Chain first (steps.map JcStep.piece) last)
    (fits : ∀ step, step ∈ steps → step.jc + step.nc0 ≤ args.n)
    (blocks : Chain icStart ics icStop)
    (column : first ≤ j ∧ j < last) (row : icStart ≤ i ∧ i < icStop) :
    (nestUpdates args bElement steps rows ics bUse bColSumVec).filter
        (fun change => change.1 = args.rsC * i + j) =
      rows.map fun row =>
        (args.rsC * i + j, cellChange args bElement i j row) := by
  have single : Chain icStart (ics.map fun ic => ic) icStop := by
    rw [List.map_id']
    exact blocks
  unfold nestUpdates
  simp only [List.filter_flatMap]
  rcases columns.exists_flatMap column.1 column.2 with
    ⟨step, member, has, only⟩
  rcases single.exists_flatMap row.1 row.2 with
    ⟨ic, icMember, icHas, icOnly⟩
  rw [only]
  · rw [List.map_eq_flatMap]
    apply List.flatMap_congr
    intro piece _
    rw [icOnly]
    · rw [← List.filter_flatMap, jrLoop_filter positive ldc below step
        (fits step member), if_pos ⟨has, icHas⟩]
    · intro other inBlocks misses
      rw [← List.filter_flatMap, jrLoop_filter positive ldc below step
        (fits step member), if_neg fun window => misses window.2]
  · intro other inSteps misses
    simp only [List.flatMap_eq_nil_iff]
    intro piece _ block _
    rw [← List.flatMap_eq_nil_iff, ← List.filter_flatMap,
      jrLoop_filter positive ldc below other (fits other inSteps),
      if_neg fun window => misses window.1]

/-- A nest changes no element outside its columns and rows. -/
theorem nestUpdates_outside (positive : 0 < args.blksz.NR)
    (ldc : args.n ≤ args.rsC) (below : j < args.n)
    (columns : Chain first (steps.map JcStep.piece) last)
    (fits : ∀ step, step ∈ steps → step.jc + step.nc0 ≤ args.n)
    (blocks : Chain icStart ics icStop)
    (outside : ¬ ((icStart ≤ i ∧ i < icStop) ∧ first ≤ j ∧ j < last)) :
    (nestUpdates args bElement steps rows ics bUse bColSumVec).filter
        (fun change => change.1 = args.rsC * i + j) = [] := by
  unfold nestUpdates
  simp only [List.filter_flatMap, List.flatMap_eq_nil_iff]
  intro step inSteps piece _ ic inBlocks
  rw [← List.flatMap_eq_nil_iff, ← List.filter_flatMap,
    jrLoop_filter positive ldc below step (fits step inSteps), if_neg]
  rintro ⟨has, icHas⟩
  have stepBounds := columns.bounds (List.mem_map_of_mem inSteps)
  have blockBounds := blocks.bounds inBlocks
  exact outside ⟨⟨blockBounds.1.trans icHas.1,
    icHas.2.trans_le blockBounds.2.2⟩, stepBounds.1.trans has.1,
    has.2.trans_le stepBounds.2.2⟩

end Nest

/-! ## All steps of the `k` loop -/

/-- The offset dot product over the first rows. -/
def offsetDot (args : GemmArgs) (bElement : Nat → Nat → BitVec 32)
    (i j count : Nat) : BitVec 32 :=
  ((List.range count).map fun p =>
    (aElement args i p + 128) * bElement p j).sum

theorem offsetDot_add (i j start width : Nat) :
    offsetDot args bElement i j (start + width) =
      offsetDot args bElement i j start +
        ((List.range width).map fun kr =>
          (aElement args i (start + kr) + 128) *
            bElement (start + kr) j).sum := by
  unfold offsetDot
  rw [List.range_add, List.map_append, List.sum_append, List.map_map]
  rfl

theorem cellChange_eq (i j pc width : Nat) (c : BitVec 32) :
    cellChange args bElement i j ⟨pc, width⟩ c =
      args.beta0 pc * c + args.alpha *
        (offsetDot args bElement i j (pc + width) -
          offsetDot args bElement i j pc -
          if args.IsLastK pc then columnTotal args bElement j else 0) := by
  rw [offsetDot_add]
  unfold cellChange
  dsimp only
  congr 2
  ring

/-- Later steps add the rest of the dot product, compensated. -/
theorem foldl_later (positive : 0 < args.blksz.KC) (i j : Nat)
    (fuel pc : Nat) (c : BitVec 32) (started : 0 < pc) (inside : pc < args.k)
    (enough : args.k ≤ pc + fuel) :
    (pcLoop args.k args.blksz.KC fuel pc).foldl
        (fun value row => cellChange args bElement i j row value) c =
      c + args.alpha *
        (offsetDot args bElement i j args.k -
          offsetDot args bElement i j pc - columnTotal args bElement j) := by
  induction fuel generalizing pc c with
  | zero => omega
  | succ fuel ih =>
      unfold pcLoop
      rw [if_pos inside, List.foldl_cons, cellChange_eq, GemmArgs.beta0,
        if_neg started.ne']
      by_cases last : args.IsLastK pc
      · have bound : args.k ≤ pc + args.blksz.KC := last
        have whole : pc + min (args.k - pc) args.blksz.KC = args.k := by
          omega
        rw [pcLoop_eq_nil fuel bound, List.foldl_nil, if_pos last, whole,
          one_mul]
      · have more : pc + args.blksz.KC < args.k := Nat.lt_of_not_le last
        have width : min (args.k - pc) args.blksz.KC = args.blksz.KC := by
          omega
        rw [ih _ _ (by omega) more (by omega), if_neg last, width]
        ring

/-- All steps of the `k` loop together. -/
theorem foldl_cells (positive : 0 < args.blksz.KC) (depth : 0 < args.k)
    (i j : Nat) (c : BitVec 32) :
    (pcLoop args.k args.blksz.KC args.k 0).foldl
        (fun value row => cellChange args bElement i j row value) c =
      args.beta * c + args.alpha *
        (offsetDot args bElement i j args.k -
          columnTotal args bElement j) := by
  have none : offsetDot args bElement i j 0 = 0 := rfl
  rcases pcLoop_first args.blksz.KC depth with ⟨fuel, shape, first⟩
  rw [first, List.foldl_cons, cellChange_eq, GemmArgs.beta0, if_pos rfl,
    none, Nat.zero_add]
  by_cases last : args.IsLastK 0
  · have bound : args.k ≤ args.blksz.KC :=
      le_of_le_of_eq last (Nat.zero_add _)
    rw [pcLoop_eq_nil fuel bound, List.foldl_nil, if_pos last,
      min_eq_left bound, sub_zero]
  · have more : 0 + args.blksz.KC < args.k := Nat.lt_of_not_le last
    rw [Nat.zero_add] at more
    rw [foldl_later positive i j fuel args.blksz.KC _ positive more
      (by omega), if_neg last, min_eq_right more.le]
    ring

/-- The compensation cancels the offset of A. -/
theorem offsetDot_sub_columnTotal (i j : Nat) :
    offsetDot args bElement i j args.k - columnTotal args bElement j =
      ((List.range args.k).map fun p =>
        aElement args i p * bElement p j).sum := by
  have split : offsetDot args bElement i j args.k =
      ((List.range args.k).map fun p =>
        aElement args i p * bElement p j).sum +
        columnTotal args bElement j := by
    unfold offsetDot columnTotal
    rw [← List.sum_map_mul_left, ← List.sum_map_add]
    congr 1
    apply List.map_congr_left
    intro p _
    ring
  rw [split, add_sub_cancel_right]

end Element

end AoclDlp.Gemm.Cells
