import AoclDlp.Foundations.Rounding
import Mathlib.Tactic.Linarith

/-!
# Blocked storage of a grid

A grid of `cols` by `rows` cells is stored panel by panel: panels are
`panelCols` wide, a panel is stored block by block down the rows in blocks of
`blockRows`, and a block is stored column by column.  The last panel and the
last block may be short.  The storage is a bijection with `[0, cols * rows)`,
and a rectangle of whole columns inside one block is a contiguous region.
-/

namespace AoclDlp.Foundations.BlockedGrid

open AoclDlp.Foundations.Rounding

/-- The extents of a blocked grid. -/
structure Grid where
  cols : Nat
  rows : Nat
  panelCols : Nat
  blockRows : Nat
  panelCols_pos : 0 < panelCols
  blockRows_pos : 0 < blockRows

namespace Grid

variable (grid : Grid)

/-- Width of the panel that starts at `panel`. -/
def width (panel : Nat) : Nat :=
  min grid.panelCols (grid.cols - panel)

/-- Height of the block that starts at `block`. -/
def height (block : Nat) : Nat :=
  min grid.blockRows (grid.rows - block)

/-- First slot of the rectangle at `offset` columns into a panel's block. -/
def base (panel block offset : Nat) : Nat :=
  panel * grid.rows + grid.width panel * block + offset * grid.height block

/-- The cell stored in a slot. -/
def cellOf (slot : Nat) : Nat × Nat :=
  let panel := blockStart (slot / grid.rows) grid.panelCols
  let inPanel := slot - panel * grid.rows
  let block := blockStart (inPanel / grid.width panel) grid.blockRows
  let inBlock := inPanel - grid.width panel * block
  (panel + inBlock / grid.height block, block + inBlock % grid.height block)

/-- A panel start and a block start of the grid. -/
structure Origin (panel block : Nat) : Prop where
  panel_dvd : grid.panelCols ∣ panel
  panel_lt : panel < grid.cols
  block_dvd : grid.blockRows ∣ block
  block_lt : block < grid.rows

variable {grid} {panel block : Nat}

theorem Origin.width_pos (origin : grid.Origin panel block) :
    0 < grid.width panel :=
  lt_min grid.panelCols_pos (Nat.sub_pos_of_lt origin.panel_lt)

theorem Origin.height_pos (origin : grid.Origin panel block) :
    0 < grid.height block :=
  lt_min grid.blockRows_pos (Nat.sub_pos_of_lt origin.block_lt)

theorem Origin.panel_end_le (origin : grid.Origin panel block) :
    panel + grid.width panel ≤ grid.cols := by
  have short := min_le_right grid.panelCols (grid.cols - panel)
  have inside := origin.panel_lt
  unfold width
  omega

theorem Origin.block_end_le (origin : grid.Origin panel block) :
    block + grid.height block ≤ grid.rows := by
  have short := min_le_right grid.blockRows (grid.rows - block)
  have inside := origin.block_lt
  unfold height
  omega

/-- A position inside a block's area stays below the block's end. -/
theorem Origin.inPanel_lt (origin : grid.Origin panel block) {rest : Nat}
    (inside : rest < grid.width panel * grid.height block) :
    grid.width panel * block + rest < grid.width panel * grid.rows :=
  calc
    grid.width panel * block + rest <
        grid.width panel * block +
          grid.width panel * grid.height block :=
      Nat.add_lt_add_left inside _
    _ = grid.width panel * (block + grid.height block) := by ring
    _ ≤ grid.width panel * grid.rows :=
      Nat.mul_le_mul_left _ origin.block_end_le

/-- The position of a slot among rows of `row` slots lies in the block at
`start` when the slot does. -/
theorem blockStart_div {unit start size row rest : Nat} (rowPos : 0 < row)
    (startDvd : unit ∣ start) (sizeLe : size ≤ unit)
    (inside : rest < size * row) :
    blockStart ((start * row + rest) / row) unit = start := by
  apply blockStart_eq startDvd
  · rw [Nat.le_div_iff_mul_le rowPos]
    exact Nat.le_add_right _ _
  · apply Nat.div_lt_of_lt_mul
    calc
      start * row + rest < start * row + size * row :=
        Nat.add_lt_add_left inside _
      _ = row * (start + size) := by ring
      _ ≤ row * (start + unit) :=
        Nat.mul_le_mul_left _ (Nat.add_le_add_left sizeLe start)

/-- Decoding a slot of a known block. -/
theorem Origin.cellOf_base_add (origin : grid.Origin panel block)
    {rest : Nat} (inside : rest < grid.width panel * grid.height block) :
    grid.cellOf
        (panel * grid.rows + grid.width panel * block + rest) =
      (panel + rest / grid.height block,
        block + rest % grid.height block) := by
  have panelOf :
      blockStart ((panel * grid.rows +
        (grid.width panel * block + rest)) / grid.rows)
          grid.panelCols = panel :=
    blockStart_div (Nat.zero_lt_of_lt origin.block_lt) origin.panel_dvd
      (min_le_left _ _) (origin.inPanel_lt inside)
  have blockOf :
      blockStart ((grid.width panel * block + rest) / grid.width panel)
        grid.blockRows = block := by
    rw [Nat.mul_comm (grid.width panel)]
    apply blockStart_div origin.width_pos origin.block_dvd (min_le_left _ _)
    rw [Nat.mul_comm]
    exact inside
  unfold cellOf
  rw [Nat.add_assoc]
  dsimp only
  rw [panelOf, Nat.add_sub_cancel_left, blockOf, Nat.add_sub_cancel_left]

/-- An index lies in its possibly short block. -/
theorem lt_blockStart_add_min {unit total index : Nat} (positive : 0 < unit)
    (below : index < total) :
    index < blockStart index unit +
      min unit (total - blockStart index unit) := by
  have lower := blockStart_le index unit
  have close := lt_blockStart_add positive index
  rcases Nat.le_total unit (total - blockStart index unit) with
    full | short
  · rw [min_eq_left full]
    exact close
  · rw [min_eq_right short]
    omega

/-- A slot of `total` rows of `row` slots lies in one of their blocks. -/
theorem exists_blockStart {unit total row slot : Nat} (positive : 0 < unit)
    (below : slot < total * row) :
    ∃ start rest, unit ∣ start ∧ start < total ∧
      rest < min unit (total - start) * row ∧ slot = start * row + rest := by
  have rowPos : 0 < row := Nat.pos_of_mul_pos_left (Nat.zero_lt_of_lt below)
  have inside : slot / row < total :=
    Nat.div_lt_of_lt_mul (by rwa [Nat.mul_comm])
  have startLe := blockStart_le (slot / row) unit
  have close := lt_blockStart_add_min positive inside
  have startDvd := dvd_blockStart (slot / row) unit
  generalize blockStart (slot / row) unit = start at *
  have lower : start * row ≤ slot :=
    (Nat.mul_le_mul_right _ startLe).trans (Nat.div_mul_le_self _ _)
  have upper : slot < start * row + min unit (total - start) * row :=
    calc
      slot < row * (slot / row + 1) := Nat.lt_mul_div_succ slot rowPos
      _ ≤ row * (start + min unit (total - start)) :=
        Nat.mul_le_mul_left _ close
      _ = start * row + min unit (total - start) * row := by ring
  rcases Nat.exists_eq_add_of_le lower with ⟨rest, rfl⟩
  exact ⟨start, rest, startDvd, startLe.trans_lt inside,
    Nat.lt_of_add_lt_add_left upper, rfl⟩

/-- Every slot lies in the area of some block. -/
theorem exists_origin (grid : Grid) {slot : Nat}
    (below : slot < grid.cols * grid.rows) :
    ∃ panel block rest, grid.Origin panel block ∧
      rest < grid.width panel * grid.height block ∧
      slot = panel * grid.rows + grid.width panel * block + rest := by
  rcases exists_blockStart grid.panelCols_pos below with
    ⟨panel, inPanel, panelDvd, panelLt, inside, rfl⟩
  rw [Nat.mul_comm] at inside
  rcases exists_blockStart grid.blockRows_pos inside with
    ⟨block, rest, blockDvd, blockLt, small, rfl⟩
  refine ⟨panel, block, rest, ⟨panelDvd, panelLt, blockDvd, blockLt⟩, ?_, ?_⟩
  · rw [Nat.mul_comm]
    exact small
  · rw [Nat.mul_comm block, Nat.add_assoc]
    rfl

/-- The panel of a column is the panel that contains it. -/
theorem Origin.blockStart_column (origin : grid.Origin panel block)
    {column : Nat} (lower : panel ≤ column)
    (upper : column < panel + grid.width panel) :
    blockStart column grid.panelCols = panel :=
  blockStart_eq origin.panel_dvd lower
    (upper.trans_le (Nat.add_le_add_left (min_le_left _ _) panel))

theorem Origin.blockStart_row (origin : grid.Origin panel block)
    {row : Nat} (lower : block ≤ row)
    (upper : row < block + grid.height block) :
    blockStart row grid.blockRows = block :=
  blockStart_eq origin.block_dvd lower
    (upper.trans_le (Nat.add_le_add_left (min_le_left _ _) block))

theorem quotient_lt {rest : Nat}
    (inside : rest < grid.width panel * grid.height block) :
    rest / grid.height block < grid.width panel :=
  Nat.div_lt_of_lt_mul (by rwa [Nat.mul_comm])

/-- Slots decode to cells of the grid. -/
theorem cellOf_lt (grid : Grid) {slot : Nat}
    (below : slot < grid.cols * grid.rows) :
    (grid.cellOf slot).1 < grid.cols ∧ (grid.cellOf slot).2 < grid.rows := by
  rcases grid.exists_origin below with
    ⟨panel, block, rest, origin, inside, rfl⟩
  rw [origin.cellOf_base_add inside]
  constructor
  · exact (Nat.add_lt_add_left (quotient_lt inside) panel).trans_le
      origin.panel_end_le
  · exact (Nat.add_lt_add_left (Nat.mod_lt rest origin.height_pos)
      block).trans_le origin.block_end_le

/-- Regions of a block stay inside the storage. -/
theorem Origin.region_lt (origin : grid.Origin panel block)
    {offset count slot : Nat} (fits : offset + count ≤ grid.width panel)
    (upper :
      slot < grid.base panel block offset + count * grid.height block) :
    slot < grid.cols * grid.rows :=
  calc
    slot < panel * grid.rows + grid.width panel * block +
        (offset + count) * grid.height block := by
      unfold base at upper
      rw [Nat.add_mul, ← Nat.add_assoc]
      exact upper
    _ ≤ panel * grid.rows + grid.width panel * block +
        grid.width panel * grid.height block :=
      Nat.add_le_add_left (Nat.mul_le_mul_right _ fits) _
    _ = panel * grid.rows +
        grid.width panel * (block + grid.height block) := by ring
    _ ≤ panel * grid.rows + grid.width panel * grid.rows :=
      Nat.add_le_add_left
        (Nat.mul_le_mul_left _ origin.block_end_le) _
    _ = (panel + grid.width panel) * grid.rows := by ring
    _ ≤ grid.cols * grid.rows :=
      Nat.mul_le_mul_right _ origin.panel_end_le

/-- The slots of a region decode to cells of its rectangle. -/
theorem Origin.cellOf_region (origin : grid.Origin panel block)
    {offset count rest : Nat} (fits : offset + count ≤ grid.width panel)
    (small : rest < count * grid.height block) :
    grid.cellOf (grid.base panel block offset + rest) =
        (panel + offset + rest / grid.height block,
          block + rest % grid.height block) ∧
      rest / grid.height block < count := by
  have area : offset * grid.height block + rest <
      grid.width panel * grid.height block :=
    calc
      offset * grid.height block + rest <
          offset * grid.height block + count * grid.height block :=
        Nat.add_lt_add_left small _
      _ = (offset + count) * grid.height block := by ring
      _ ≤ grid.width panel * grid.height block :=
        Nat.mul_le_mul_right _ fits
  constructor
  · rw [base, Nat.add_assoc, origin.cellOf_base_add area,
      Nat.add_comm (offset * _), Nat.add_mul_div_right _ _ origin.height_pos,
      Nat.add_mul_mod_self_right, Nat.add_comm _ offset, Nat.add_assoc]
  · exact Nat.div_lt_of_lt_mul (by rwa [Nat.mul_comm])

/-- A slot that decodes into the block at `panel` and `block` lies there. -/
theorem Origin.eq_of_cellOf (origin : grid.Origin panel block) {slot : Nat}
    (below : slot < grid.cols * grid.rows)
    (colLower : panel ≤ (grid.cellOf slot).1)
    (colUpper : (grid.cellOf slot).1 < panel + grid.width panel)
    (rowLower : block ≤ (grid.cellOf slot).2)
    (rowUpper : (grid.cellOf slot).2 < block + grid.height block) :
    ∃ rest, rest < grid.width panel * grid.height block ∧
      slot = panel * grid.rows + grid.width panel * block + rest := by
  rcases grid.exists_origin below with
    ⟨panel2, block2, rest, origin2, inside, rfl⟩
  rw [origin2.cellOf_base_add inside] at colLower colUpper rowLower rowUpper
  have samePanel : panel2 = panel := by
    rw [← origin2.blockStart_column (Nat.le_add_right _ _)
      (Nat.add_lt_add_left (quotient_lt inside) panel2)]
    exact origin.blockStart_column colLower colUpper
  have sameBlock : block2 = block := by
    rw [← origin2.blockStart_row (Nat.le_add_right _ _)
      (Nat.add_lt_add_left (Nat.mod_lt rest origin2.height_pos) block2)]
    exact origin.blockStart_row rowLower rowUpper
  subst samePanel
  subst sameBlock
  exact ⟨rest, inside, rfl⟩

/-- A rectangle of whole columns of one block is one region of slots. -/
theorem Origin.mem_region_iff (origin : grid.Origin panel block)
    {offset count slot : Nat} (fits : offset + count ≤ grid.width panel)
    (below : slot < grid.cols * grid.rows) :
    (grid.base panel block offset ≤ slot ∧
        slot < grid.base panel block offset + count * grid.height block) ↔
      (panel + offset ≤ (grid.cellOf slot).1 ∧
        (grid.cellOf slot).1 < panel + offset + count) ∧
      (block ≤ (grid.cellOf slot).2 ∧
        (grid.cellOf slot).2 < block + grid.height block) := by
  constructor
  · rintro ⟨lower, upper⟩
    rcases Nat.exists_eq_add_of_le lower with ⟨rest, rfl⟩
    have decoded := origin.cellOf_region fits
      (Nat.lt_of_add_lt_add_left upper)
    rw [decoded.1]
    exact ⟨⟨Nat.le_add_right _ _, Nat.add_lt_add_left decoded.2 _⟩,
      Nat.le_add_right _ _,
      Nat.add_lt_add_left (Nat.mod_lt rest origin.height_pos) block⟩
  · rintro ⟨⟨colLower, colUpper⟩, rowLower, rowUpper⟩
    rcases origin.eq_of_cellOf below
        ((Nat.le_add_right _ _).trans colLower) (by omega) rowLower
        rowUpper with ⟨rest, inside, rfl⟩
    rw [origin.cellOf_base_add inside] at colLower colUpper
    have columnLower : offset ≤ rest / grid.height block :=
      Nat.le_of_add_le_add_left colLower
    have columnUpper : rest / grid.height block < offset + count := by
      rw [Nat.add_assoc] at colUpper
      exact Nat.lt_of_add_lt_add_left colUpper
    rw [Nat.le_div_iff_mul_le origin.height_pos] at columnLower
    rw [Nat.div_lt_iff_lt_mul origin.height_pos, Nat.add_mul] at columnUpper
    unfold base
    rw [Nat.add_assoc _ (offset * _)]
    exact ⟨Nat.add_le_add_left columnLower _,
      Nat.add_lt_add_left columnUpper _⟩

end Grid

end AoclDlp.Foundations.BlockedGrid
