import AoclDlp.Gemm.F32Frames

/-!
# The tiny frame and the five-loop

Both frames solve the same problem element by element: every call resolves the
factors of an output element to the elements of A and B, and the element to its
address and coordinates.  Since the calls of the five-loop tile the output, the
two frames make the same updates in another order.
-/

namespace AoclDlp.Gemm.TinyAgreement

open AoclDlp.Config.BlockSize
open AoclDlp.Foundations.Memory
open AoclDlp.Foundations.Rounding
open AoclDlp.Foundations.Span
open AoclDlp.Foundations.Tiling
open AoclDlp.Gemm.F32Frames
open AoclDlp.Gemm.F32Kernel
open AoclDlp.Layout.Panel
open AoclDlp.Threading.TaskRange

variable {Value : Type}

/-! ## Slots of panels -/

theorem panelSlot_one (width x : Nat) : panelSlot width 1 0 x = x := by
  unfold panelSlot
  rw [Nat.mul_one, Nat.mul_zero, Nat.zero_add, Nat.div_add_mod]

theorem panelSlot_shift {width start : Nat} (positive : 0 < width)
    (aligned : width ∣ start) (depth p x : Nat) :
    panelSlot width depth p (start + x) =
      start * depth + panelSlot width depth p x := by
  rcases aligned with ⟨panel, rfl⟩
  unfold panelSlot
  rw [Nat.mul_add_div positive, Nat.mul_add_mod]
  ring

/-- Stepping from panel to panel reaches the slot. -/
theorem panelSlot_walk (width depth p x : Nat) :
    depth * (x / width * width) + (width * p + 1 * (x - x / width * width)) =
      panelSlot width depth p x := by
  have column : x - x / width * width = x % width := by
    rw [Nat.mul_comm]
    exact (Nat.mod_eq_sub_mul_div).symm
  unfold panelSlot
  rw [column, Nat.one_mul]
  ring

theorem panelSlot_lt {width depth p x extent : Nat} (positive : 0 < width)
    (inside : x < extent) (row : p < depth) :
    panelSlot width depth p x < roundUp extent width * depth := by
  have column : x % width < width := Nat.mod_lt x positive
  have panel : width * (x / width) + width ≤ roundUp extent width := by
    apply add_le_of_dvd_lt (Nat.dvd_mul_right width _)
      (dvd_roundUp extent width)
    exact (Nat.mul_div_le x width).trans_lt
      (inside.trans_le (le_roundUp positive extent))
  unfold panelSlot
  calc
    width * depth * (x / width) + (width * p + x % width) <
        width * depth * (x / width) + (width * p + width) := by omega
    _ = width * (x / width) * depth + width * (p + 1) := by ring
    _ ≤ width * (x / width) * depth + width * depth :=
      Nat.add_le_add_left (Nat.mul_le_mul_left width row) _
    _ = (width * (x / width) + width) * depth := by ring
    _ ≤ roundUp extent width * depth := Nat.mul_le_mul_right depth panel

/-! ## Elements -/

/-- Where B keeps an element: reordered B in panels, any other by strides. -/
def bAddress (args : FrameArgs Value) (p j : Nat) : Nat :=
  if args.ops.mtagB = .reordered then panelSlot args.blksz.NR args.k p j
  else args.ops.rsB * p + args.ops.csB * j

/-- The update that an output element calls for. -/
def element (args : FrameArgs Value) (i j : Nat) : ElementUpdate Value where
  left := (List.range args.k).map fun p =>
    args.a (args.ops.rsA * i + args.ops.csA * p)
  right := (List.range args.k).map fun p => args.b (bAddress args p j)
  address := args.ops.rsC * i + args.ops.csC * j
  alpha := args.alpha
  beta := args.beta
  postOpsAttr := ⟨i, j, true, true⟩

/-- A call updates the elements of a tile. -/
structure Solves (args : FrameArgs Value) (call : KernelArgs Value)
    (row column : Piece) : Prop where
  rows : call.m = row.width
  columns : call.n = column.width
  updates : ∀ i j, i < row.width → j < column.width →
    elementUpdate args.kernel args.ops.mtagB call i j =
      element args (row.start + i) (column.start + j)

theorem Solves.execute {args : FrameArgs Value} {call : KernelArgs Value}
    {row column : Piece} (solves : Solves args call row column) :
    dlpExecuteKernel args.kernel args.ops.mtagB call =
      tileItems (element args) row column := by
  rw [← tileItems_shift]
  unfold dlpExecuteKernel
  rw [solves.rows, solves.columns]
  apply tileItems_congr
  intro i j inRow inColumn
  exact solves.updates i j (by have := inRow.2; simpa using this)
    (by have := inColumn.2; simpa using this)

/-- Calls that solve the tiles of two chains make every update once. -/
theorem executeAll_perm {args : FrameArgs Value} {Step : Type}
    {steps : List Step} {piece : Step → Piece} {rows : List Piece}
    {call : Step → Piece → KernelArgs Value} {m n : Nat}
    (rowChain : Chain 0 rows m)
    (columnChain : Chain 0 (steps.map piece) n)
    (solves : ∀ step, step ∈ steps → ∀ row, row ∈ rows →
      Solves args (call step row) row (piece step)) :
    (executeAll args.kernel args.ops.mtagB
        (steps.flatMap fun step => rows.map (call step))).Perm
      (tileItems (element args) ⟨0, m⟩ ⟨0, n⟩) := by
  have tiles : executeAll args.kernel args.ops.mtagB
      (steps.flatMap fun step => rows.map (call step)) =
      (steps.map piece).flatMap fun column =>
        rows.flatMap fun row => tileItems (element args) row column := by
    unfold executeAll
    rw [List.flatMap_assoc, List.flatMap_map]
    apply List.flatMap_congr
    intro step inSteps
    rw [List.flatMap_map]
    apply List.flatMap_congr
    intro row inRows
    exact (solves step inSteps row inRows).execute
  rw [tiles]
  exact tiles_perm rowChain columnChain (element args)

/-! ## What the entry point guarantees -/

/-- The arguments that the entry point hands to its frames. -/
structure Served (args : FrameArgs Value) : Prop where
  m_pos : 0 < args.ops.m
  n_pos : 0 < args.ops.n
  k_pos : 0 < args.k
  MC_pos : 0 < args.blksz.MC
  NC_pos : 0 < args.blksz.NC
  MR_pos : 0 < args.blksz.MR
  NR_pos : 0 < args.blksz.NR
  panels : args.blksz.NR ∣ args.blksz.NC
  shallow : args.k ≤ args.blksz.KC
  mr : args.kernel.info.dims.mr = args.blksz.MR
  nr : args.kernel.info.dims.nr = args.blksz.NR
  kc : args.kernel.info.kc = args.blksz.KC
  vector : args.avx512 = true ∨ args.avx2fma3 = true
  tagB : args.ops.mtagB ≠ .packKc
  unitB : args.ops.rsB = 1 ∨ args.ops.csB = 1
  unpacked : args.ops.mtagB = .unpacked → args.ops.n ≠ 1 → args.ops.csB = 1
  tile : args.ops.m ≠ 1 → args.ops.n ≠ 1 →
    args.blksz.MR ≠ 1 ∧ args.blksz.NR ≠ 1
  fused : args.ops.m ≠ 1 → args.ops.n ≠ 1 → args.k = 1 → args.blksz.KC = 1
  rd : args.kernel.invokeRD = true →
    args.ops.mtagB = .pack ∧ args.ops.csB ≠ 1
  column : args.ops.n = 1 → args.blksz.NR = 1 ∧ args.blksz.MR ≠ 1
  row : args.ops.m = 1 → args.ops.n ≠ 1 →
    args.blksz.MR = 1 ∧ args.ops.csC = 1
  tagA : args.ops.m ≠ 1 → args.ops.n ≠ 1 → args.ops.mtagA ≠ .reordered

/-! ## One GEMM call -/

/-- Where a GEMM kernel looks for a factor from A. -/
def leftAddress (args : FrameArgs Value) (block : Block Value) (i p : Nat) :
    Nat :=
  (if args.kernel.invokeRD then block.rs * i
    else block.ps * (i / args.blksz.MR) + block.rs * (i % args.blksz.MR)) +
    block.cs * p

/-- Where a GEMM kernel looks for a factor from B. -/
def rightAddress (args : FrameArgs Value) (block : Block Value) (p j : Nat) :
    Nat :=
  if args.blksz.KC = 1 ∧ args.kernel.invokeRD = false then j
  else
    let jr := j / args.blksz.NR * args.blksz.NR
    block.ps * jr + (block.rs * p + block.cs * (j - jr))

/-- A block of A holds the rows from `start` on. -/
def HoldsA (args : FrameArgs Value) (block : Block Value) (row : Piece) :
    Prop :=
  ∀ i p, i < row.width → p < args.k →
    block.use (leftAddress args block i p) =
      args.a (args.ops.rsA * (row.start + i) + args.ops.csA * p)

/-- A block of B holds the columns from `start` on. -/
def HoldsB (args : FrameArgs Value) (block : Block Value) (column : Piece) :
    Prop :=
  ∀ p j, p < args.k → j < column.width →
    block.use (rightAddress args block p j) =
      args.b (bAddress args p (column.start + j))

variable {args : FrameArgs Value}

/-- A kernel that resolves the factors of an element updates the element. -/
theorem elementUpdate_eq {call : KernelArgs Value} {i j i2 j2 : Nat}
    {found : Access}
    (resolved : access args.kernel args.ops.mtagB call = found)
    (depth : found.depth = args.k)
    (left : ∀ p, p < args.k → call.a (found.left i p) =
      args.a (args.ops.rsA * i2 + args.ops.csA * p))
    (right : ∀ p, p < args.k → call.b (found.right p j) =
      args.b (bAddress args p j2))
    (result : found.result i j = args.ops.rsC * i2 + args.ops.csC * j2)
    (scalars : call.alpha = args.alpha ∧ call.beta = args.beta)
    (attr : ({ call.postOpsAttr with
      postOpCI := call.postOpsAttr.postOpCI + i
      postOpCJ := call.postOpsAttr.postOpCJ + j } : DlpGemmPostOpAttr) =
        ⟨i2, j2, true, true⟩) :
    elementUpdate args.kernel args.ops.mtagB call i j =
      element args i2 j2 := by
  unfold elementUpdate element
  rw [resolved, depth, result, scalars.1, scalars.2, attr]
  congr 1
  · apply List.map_congr_left
    intro p inRange
    exact left p (List.mem_range.mp inRange)
  · apply List.map_congr_left
    intro p inRange
    exact right p (List.mem_range.mp inRange)

/-- The kernels of a problem with several rows and columns. -/
theorem access_gemm (served : Served args) (rows : args.ops.m ≠ 1)
    (columns : args.ops.n ≠ 1) (call : KernelArgs Value) :
    access args.kernel args.ops.mtagB call =
      if args.blksz.KC = 1 ∧ args.kernel.invokeRD = false then
        gemmK1Access args.kernel call
      else gemmAccess args.kernel call := by
  have tile := served.tile rows columns
  unfold access
  rw [if_neg fun single => tile.1 (served.mr ▸ single.1),
    if_neg fun single => tile.2 (served.nr ▸ single.1), served.kc]

/-- A GEMM call whose blocks hold its factors solves its tile. -/
theorem gemmCall_solves (served : Served args) (rows : args.ops.m ≠ 1)
    (columns : args.ops.n ≠ 1) {a b : Block Value} {row column : Piece}
    (holdsA : HoldsA args a row) (holdsB : HoldsB args b column) :
    Solves args
      (args.gemmCall a b row column ⟨0, args.k⟩ args.beta true) row
      column := by
  refine ⟨rfl, rfl, ?_⟩
  intro i j inRow inColumn
  have address : column.start * args.ops.csC + args.ops.rsC * row.start +
      (args.ops.rsC * i + args.ops.csC * j) =
        args.ops.rsC * (row.start + i) +
          args.ops.csC * (column.start + j) := by
    ring
  by_cases fused : args.blksz.KC = 1 ∧ args.kernel.invokeRD = false
  · have single : args.k = 1 :=
      le_antisymm (fused.1 ▸ served.shallow) served.k_pos
    refine @elementUpdate_eq Value args _ i j _ _
      (gemmK1Access args.kernel
        (args.gemmCall a b row column ⟨0, args.k⟩ args.beta true))
      ((access_gemm served rows columns _).trans (if_pos fused)) single.symm
      ?_ ?_ address ⟨rfl, rfl⟩ rfl
    · intro p below
      have first : p = 0 := by omega
      have holds := holdsA i p inRow below
      unfold leftAddress at holds
      rw [fused.2, if_neg Bool.false_ne_true, first, Nat.mul_zero,
        Nat.add_zero, ← served.mr] at holds
      rw [first]
      exact holds
    · intro p below
      have holds := holdsB p j below inColumn
      unfold rightAddress at holds
      rw [if_pos fused] at holds
      exact holds
  · refine @elementUpdate_eq Value args _ i j _ _
      (gemmAccess args.kernel
        (args.gemmCall a b row column ⟨0, args.k⟩ args.beta true))
      ((access_gemm served rows columns _).trans (if_neg fused)) rfl
      ?_ ?_ address ⟨rfl, rfl⟩ rfl
    · intro p below
      have holds := holdsA i p inRow below
      unfold leftAddress at holds
      rw [← served.mr] at holds
      exact holds
    · intro p below
      have holds := holdsB p j below inColumn
      unfold rightAddress at holds
      rw [if_neg fused, ← served.nr] at holds
      exact holds

/-! ## Blocks of A -/

/-- Strided rows of A. -/
theorem holdsA_strided {block : Block Value} {row : Piece}
    (use : ∀ address, block.use address =
      args.a (args.ops.rsA * row.start + address))
    (rs : block.rs = args.ops.rsA) (cs : block.cs = args.ops.csA)
    (ps : block.ps = args.blksz.MR * args.ops.rsA) :
    HoldsA args block row := by
  intro i p _ _
  have resolved : leftAddress args block i p =
      args.ops.rsA * i + args.ops.csA * p := by
    unfold leftAddress
    rw [rs, cs, ps]
    congr 1
    split_ifs
    · rfl
    · calc
        args.blksz.MR * args.ops.rsA * (i / args.blksz.MR) +
            args.ops.rsA * (i % args.blksz.MR) =
            args.ops.rsA *
              (args.blksz.MR * (i / args.blksz.MR) + i % args.blksz.MR) := by
          ring
        _ = args.ops.rsA * i := by rw [Nat.div_add_mod]
  rw [use, resolved]
  congr 1
  ring

/-- Packed rows of A. -/
theorem holdsA_packed (served : Served args)
    (plain : args.kernel.invokeRD = false) (row : Piece) :
    HoldsA args
      ⟨args.packers.panels args.blksz.MR row.width args.k args.ops.rsA
        args.ops.csA
        (advance args.a (args.ops.rsA * row.start + 0 * args.ops.csA)), 1,
        args.blksz.MR, args.blksz.MR * args.k⟩ row := by
  intro i p inRow below
  have resolved : leftAddress args
      ⟨args.packers.panels args.blksz.MR row.width args.k args.ops.rsA
        args.ops.csA
        (advance args.a (args.ops.rsA * row.start + 0 * args.ops.csA)), 1,
        args.blksz.MR, args.blksz.MR * args.k⟩ i p =
      panelSlot args.blksz.MR args.k p i := by
    unfold leftAddress panelSlot
    rw [plain, if_neg Bool.false_ne_true]
    dsimp only
    ring
  rw [resolved]
  refine (args.packers.panels_slot _ served.MR_pos inRow below).trans ?_
  rw [advance_apply]
  congr 1
  ring

/-! ## Blocks of B -/

theorem bAddress_strided {p j : Nat} (tag : args.ops.mtagB ≠ .reordered) :
    bAddress args p j = args.ops.rsB * p + args.ops.csB * j :=
  if_neg tag

/-- Panels of B, read slot by slot. -/
theorem rightAddress_panels (served : Served args) (use : Nat → Value) {p : Nat}
    (below : p < args.k) (j : Nat) :
    rightAddress args ⟨use, args.blksz.NR, 1, args.k⟩ p j =
      panelSlot args.blksz.NR args.k p j := by
  unfold rightAddress
  split_ifs with fused
  · have single : args.k = 1 :=
      le_antisymm (fused.1 ▸ served.shallow) served.k_pos
    have first : p = 0 := by omega
    rw [single, first, panelSlot_one]
  · exact panelSlot_walk args.blksz.NR args.k p j

/-- Packed columns of B. -/
theorem holdsB_packed (served : Served args)
    (tag : args.ops.mtagB ≠ .reordered) {use : Nat → Value} {column : Piece}
    (packed : ∀ p j, p < args.k → j < column.width →
      use (panelSlot args.blksz.NR args.k p j) =
        args.b (args.ops.rsB * p + args.ops.csB * (column.start + j))) :
    HoldsB args ⟨use, args.blksz.NR, 1, args.k⟩ column := by
  intro p j below inColumn
  rw [rightAddress_panels served use below, bAddress_strided tag]
  exact packed p j below inColumn

/-- Reordered columns of B. -/
theorem holdsB_reordered (served : Served args)
    (tag : args.ops.mtagB = .reordered) {use : Nat → Value} {column : Piece}
    (aligned : args.blksz.NR ∣ column.start)
    (reads : ∀ address, use address =
      args.b (column.start * args.k + address)) :
    HoldsB args ⟨use, args.blksz.NR, 1, args.k⟩ column := by
  intro p j below inColumn
  rw [rightAddress_panels served use below]
  unfold bAddress
  rw [if_pos tag, panelSlot_shift served.NR_pos aligned]
  exact reads _

/-- Columns of B as they are stored; the fused kernel needs them adjacent. -/
theorem holdsB_strided (served : Served args)
    (tag : args.ops.mtagB ≠ .reordered) {use : Nat → Value} {column : Piece}
    (unit : args.kernel.invokeRD = false → args.ops.csB = 1)
    (reads : ∀ address, use address =
      args.b (args.ops.csB * column.start + address)) :
    HoldsB args ⟨use, args.ops.rsB, args.ops.csB, args.ops.csB⟩ column := by
  intro p j below inColumn
  have resolved :
      rightAddress args ⟨use, args.ops.rsB, args.ops.csB, args.ops.csB⟩ p j =
        args.ops.rsB * p + args.ops.csB * j := by
    unfold rightAddress
    split_ifs with fused
    · have single : args.k = 1 :=
        le_antisymm (fused.1 ▸ served.shallow) served.k_pos
      have first : p = 0 := by omega
      rw [first, unit fused.2, Nat.mul_zero, Nat.zero_add, Nat.one_mul]
    · have lower := Nat.div_mul_le_self j args.blksz.NR
      rcases Nat.exists_eq_add_of_le lower with ⟨offset, split⟩
      dsimp only
      generalize j / args.blksz.NR * args.blksz.NR = jr at *
      subst split
      rw [Nat.add_sub_cancel_left]
      ring
  rw [resolved, bAddress_strided tag]
  refine (reads _).trans ?_
  congr 1
  ring

/-- A `K` of one and adjacent columns: the raw B is also the reordered one. -/
theorem holdsB_fused (served : Served args) (rows : args.ops.m ≠ 1)
    (columns : args.ops.n ≠ 1) (single : args.k = 1)
    (unit : args.ops.csB = 1) (block : Block Value)
    (reads : block.use = args.b) (width : Nat) :
    HoldsB args block ⟨0, width⟩ := by
  have plain : args.kernel.invokeRD = false := by
    cases invoked : args.kernel.invokeRD with
    | false => rfl
    | true => exact absurd unit (served.rd invoked).2
  intro p j below _
  have first : p = 0 := by omega
  have resolved : rightAddress args block p j = j :=
    if_pos ⟨served.fused rows columns single, plain⟩
  have place : bAddress args p (0 + j) = j := by
    unfold bAddress
    rw [first, single, unit, Nat.zero_add]
    split_ifs
    · exact panelSlot_one _ j
    · rw [Nat.mul_zero, Nat.zero_add, Nat.one_mul]
  dsimp only
  rw [resolved, place, reads]

/-! ## The tags of a GEMM -/

theorem gemmTagB_ne {tag : MemoryTag} (known : args.gemmTagB = tag)
    (packed : tag ≠ .unpacked) :
    args.kernel.invokeRD = false ∧ args.ops.mtagB = tag := by
  unfold FrameArgs.gemmTagB at known
  split at known
  next => exact absurd known.symm packed
  next plain => exact ⟨Bool.eq_false_of_not_eq_true plain, known⟩

theorem gemmTagA_ne {tag : MemoryTag} (known : args.gemmTagA = tag)
    (packed : tag ≠ .unpacked) :
    args.kernel.invokeRD = false ∧ args.ops.mtagA = tag := by
  unfold FrameArgs.gemmTagA at known
  split at known
  next => exact absurd known.symm packed
  next plain => exact ⟨Bool.eq_false_of_not_eq_true plain, known⟩

/-- B is read as it is stored only where it is not reordered. -/
theorem gemmTagB_strided (served : Served args)
    (stored : args.gemmTagB ≠ .reordered) :
    args.ops.mtagB ≠ .reordered := by
  unfold FrameArgs.gemmTagB at stored
  split at stored
  next invoked =>
    rw [(served.rd invoked).1]
    decide
  next => exact stored

/-- Where B is read as it is stored its columns are adjacent, but for RD. -/
theorem strided_unit (served : Served args) (columns : args.ops.n ≠ 1)
    (tag : args.ops.mtagB ≠ .reordered)
    (plain : args.kernel.invokeRD = false)
    (packed : args.gemmTagB = .pack → args.ops.csB = 1) :
    args.ops.csB = 1 := by
  have same : args.gemmTagB = args.ops.mtagB := by
    unfold FrameArgs.gemmTagB
    rw [plain, if_neg Bool.false_ne_true]
  cases known : args.ops.mtagB with
  | unpacked => exact served.unpacked known columns
  | pack => exact packed (same.trans known)
  | packKc => exact absurd known served.tagB
  | reordered => exact absurd known tag

/-! ## The tiny GEMM -/

theorem tinyA_holds (served : Served args) (rows : args.ops.m ≠ 1)
    (columns : args.ops.n ≠ 1) :
    HoldsA args args.tinyA ⟨0, args.ops.m⟩ := by
  have start (address : Nat) : args.a address =
      args.a (args.ops.rsA * 0 + address) := by
    rw [Nat.mul_zero, Nat.zero_add]
  unfold FrameArgs.tinyA
  dsimp only
  split_ifs with short reordered
  · exact holdsA_strided start rfl rfl rfl
  · exact absurd reordered (served.tagA rows columns)
  · exact holdsA_strided start rfl rfl rfl

theorem tinyB_holds (served : Served args) (rows : args.ops.m ≠ 1)
    (columns : args.ops.n ≠ 1) :
    HoldsB args args.tinyB ⟨0, args.ops.n⟩ := by
  unfold FrameArgs.tinyB
  dsimp only
  split_ifs with short reordered packed
  · exact holdsB_fused served rows columns short.1 short.2 _ rfl _
  · apply holdsB_reordered served (gemmTagB_ne reordered (by decide)).2
      (Nat.dvd_zero _)
    intro address
    rw [Nat.zero_mul, Nat.zero_add]
  · apply holdsB_packed served
      (by rw [(gemmTagB_ne packed.1 (by decide)).2]; decide)
    intro p j below inColumn
    refine (args.packers.panels_slot _ served.NR_pos inColumn below).trans ?_
    rw [Nat.zero_add, Nat.add_comm]
  · have tag := gemmTagB_strided served reordered
    apply holdsB_strided served tag
    · intro plain
      exact strided_unit served columns tag plain fun tagged =>
        served.unitB.resolve_left fun unit => packed ⟨tagged, unit⟩
    · intro address
      rw [Nat.mul_zero, Nat.zero_add]

/-! ## The five-loop GEMM -/

/-- A team of one thread. -/
def soleThread : DlpGemmThrinfo :=
  ⟨1, 0, 1, 1⟩

theorem taskRange_sole (extent block : Nat) :
    dlpThreadTaskRange ⟨0, 1, 0⟩ extent block false = (0, extent) :=
  rfl

theorem pcLoop_single {k KC : Nat} (positive : 0 < k) (shallow : k ≤ KC) :
    pcLoop k KC k 0 = [⟨0, k⟩] := by
  rcases pcLoop_first KC positive with ⟨fuel, -, loop⟩
  rw [loop, min_eq_left shallow, pcLoop_eq_nil fuel shallow]

theorem blockA_holds (served : Served args) (rows : args.ops.m ≠ 1)
    (columns : args.ops.n ≠ 1) (row : Piece) :
    HoldsA args (args.blockA ⟨0, args.k⟩ row) row := by
  unfold FrameArgs.blockA
  dsimp only
  split_ifs with reordered packed
  · exact absurd (gemmTagA_ne reordered (by decide)).2
      (served.tagA rows columns)
  · exact holdsA_packed served (gemmTagA_ne packed (by decide)).1 row
  · apply holdsA_strided _ rfl rfl rfl
    intro address
    change args.a (args.ops.rsA * row.start + 0 * args.ops.csA + address) = _
    rw [Nat.zero_mul, Nat.add_zero]

/-- What a `jc` step of a one-thread loop satisfies. -/
structure StepOk (args : FrameArgs Value) (mtagB : MemoryTag)
    (step : JcStep) : Prop where
  width_pos : 0 < step.nc0
  aligned : mtagB = .reordered → args.blksz.NR ∣ step.jc
  panel : mtagB = .reordered → step.jcCurLoop + step.jcCurLoopRem = step.jc

theorem jcSteps_chain (served : Served args) (mtagB : MemoryTag) :
    Chain 0 ((args.jcSteps mtagB (0, args.ops.n)).map JcStep.piece)
      args.ops.n := by
  unfold FrameArgs.jcSteps
  dsimp only
  split_ifs
  · exact jcLoop_chain args.ops.n args.blksz.NR served.NC_pos args.ops.n
      (Nat.zero_add _).ge (Nat.zero_le _)
  · rw [List.map_map]
    have same : (JcStep.piece ∘ fun piece : Piece =>
        (⟨piece.start, piece.width, piece.start, 0, 0⟩ : JcStep)) = id := rfl
    rw [same, List.map_id]
    exact pcLoop_chain served.NC_pos args.ops.n (Nat.zero_add _).ge
      (Nat.zero_le _)

theorem jcSteps_ok (served : Served args) (mtagB : MemoryTag)
    {step : JcStep} (member : step ∈ args.jcSteps mtagB (0, args.ops.n)) :
    StepOk args mtagB step := by
  have width := ((jcSteps_chain served mtagB).bounds
    (List.mem_map_of_mem member)).2.1
  refine ⟨width, ?_, ?_⟩
  · intro reordered
    unfold FrameArgs.jcSteps at member
    rw [if_pos reordered] at member
    exact (jcLoop_mem served.NC_pos served.panels (Nat.dvd_zero _)
      member).1
  · intro reordered
    unfold FrameArgs.jcSteps at member
    rw [if_pos reordered] at member
    have inPanel := (jcLoop_mem served.NC_pos served.panels
      (Nat.dvd_zero _) member).2
    rw [inPanel.start, inPanel.rem]
    exact Nat.add_sub_of_le (blockStart_le _ _)

/-- The panel that a single thread packs. -/
theorem packedPanel_slot (served : Served args) {step : JcStep}
    (positive : 0 < step.nc0) {p j : Nat} (below : p < args.k)
    (inColumn : j < step.nc0) :
    args.packedPanel soleThread step ⟨0, args.k⟩
        (panelSlot args.blksz.NR args.k p j) =
      args.b (args.ops.rsB * p + args.ops.csB * (step.jc + j)) := by
  have range : dlpThreadTaskRange
      (dlpGemmGenDlpTaskIds (some soleThread)).2 step.nc0 args.blksz.NR
      false = (0, step.nc0) := taskRange_sole _ _
  unfold FrameArgs.packedPanel
  rw [range]
  dsimp only
  rw [if_pos ⟨positive, positive.trans_le (Nat.le_add_left _ _)⟩, copyBlock,
    Nat.sub_zero, Nat.zero_mul, Nat.sub_zero, Nat.zero_add, Nat.zero_add,
    if_pos ⟨Nat.zero_le _, panelSlot_lt served.NR_pos inColumn below⟩]
  refine (args.packers.panels_slot _ served.NR_pos inColumn below).trans ?_
  rw [advance_apply]
  congr 1
  ring

theorem panelB_holds (served : Served args) (columns : args.ops.n ≠ 1)
    {step : JcStep} (ok : StepOk args args.gemmTagB step) :
    HoldsB args (args.panelB soleThread step ⟨0, args.k⟩) step.piece := by
  unfold FrameArgs.panelB
  dsimp only
  split_ifs with reordered packed
  · apply holdsB_reordered served (gemmTagB_ne reordered (by decide)).2
      (ok.aligned reordered)
    intro address
    rw [advance_apply]
    change args.b _ = args.b (step.jc * args.k + address)
    rw [← ok.panel reordered]
    congr 1
    ring
  · apply holdsB_packed served
      (by rw [(gemmTagB_ne packed (by decide)).2]; decide)
    intro p j below inColumn
    exact packedPanel_slot served ok.width_pos below inColumn
  · have tag := gemmTagB_strided served reordered
    apply holdsB_strided served tag
    · intro plain
      exact strided_unit served columns tag plain fun tagged =>
        absurd tagged packed
    · intro address
      rw [advance_apply]
      change args.b _ = args.b (args.ops.csB * step.jc + address)
      congr 1
      ring

/-! ## The `n == 1` problems -/

/-- Rows of A behind a pointer, packed or not, are those rows. -/
theorem rowsA_apply {m i p : Nat} {a : Nat → Value} (inRow : i < m)
    (below : p < args.k) :
    (args.rowsA m a).use ((args.rowsA m a).rs * i + (args.rowsA m a).cs * p) =
      a (args.ops.rsA * i + args.ops.csA * p) := by
  unfold FrameArgs.rowsA
  split_ifs with strided
  · dsimp only
    rw [Nat.one_mul]
    exact args.packers.rows_slot a inRow below
  · rfl

theorem vectorB_apply (p : Nat) (single : args.blksz.NR = 1) :
    args.vectorB.use p = args.b (bAddress args p 0) := by
  unfold FrameArgs.vectorB bAddress
  split_ifs with reordered strided
  · dsimp only
    rw [single]
    unfold panelSlot
    congr 1
    simp
  · dsimp only
    rw [Nat.mul_zero, Nat.add_zero]
  · dsimp only
    rw [not_not.mp strided, Nat.one_mul, Nat.mul_zero, Nat.add_zero]

theorem gemvN1_solves (served : Served args) (column : args.ops.n = 1)
    (row : Piece) :
    Solves args (args.gemvN1Call row.start row.width) row ⟨0, 1⟩ := by
  refine ⟨rfl, rfl, ?_⟩
  intro i j inRow inColumn
  have first : j = 0 := Nat.lt_one_iff.mp inColumn
  subst first
  have tile := served.column column
  refine @elementUpdate_eq Value args _ i 0 _ _
    (gemvN1Access (args.gemvN1Call row.start row.width)) ?_ rfl ?_ ?_ ?_
    ⟨rfl, rfl⟩ rfl
  · unfold access
    rw [if_neg fun single => tile.2 (served.mr ▸ single.1),
      if_pos ⟨served.nr.trans tile.1, rfl⟩]
  · intro p below
    refine (rowsA_apply inRow below).trans ?_
    rw [advance_apply]
    congr 1
    ring
  · intro p _
    exact vectorB_apply p tile.1
  · change row.start * args.ops.rsC + args.ops.rsC * i = _
    rw [Nat.zero_add, Nat.mul_zero, Nat.add_zero]
    ring

/-! ## The `m == 1` problems -/

/-- What the `m == 1` kernel finds behind its pointer to A. -/
def HoldsVector (args : FrameArgs Value) (block : Block Value) : Prop :=
  ∀ p, p < args.k → block.use p = args.a (args.ops.csA * p)

/-- Where the `m == 1` kernel looks for a factor from B. -/
theorem gemvM1_right (served : Served args) {call : KernelArgs Value}
    (depth : call.k = args.k) {p : Nat} (below : p < args.k) (j : Nat) :
    (gemvM1Access args.kernel args.ops.mtagB call).right p j =
      if args.ops.mtagB = .reordered ∨ args.ops.mtagB = .pack then
        call.jcCurLoopRem * args.k + panelSlot args.blksz.NR args.k p j
      else call.rsB * p + j := by
  have block : p / args.blksz.KC = 0 :=
    Nat.div_eq_of_lt (below.trans_le served.shallow)
  have width : (if p / args.blksz.KC < args.k / args.blksz.KC then
      args.blksz.KC else args.k % args.blksz.KC) = args.k := by
    rw [block]
    rcases served.shallow.lt_or_eq with inner | whole
    · rw [Nat.div_eq_of_lt inner, if_neg (lt_irrefl 0),
        Nat.mod_eq_of_lt inner]
    · rw [whole, Nat.div_self (whole ▸ served.k_pos), if_pos Nat.one_pos]
  unfold gemvM1Access
  dsimp only
  rw [depth, served.kc, served.nr, width, block]
  split_ifs
  · rw [← panelSlot_walk, Nat.zero_mul, Nat.mul_zero, Nat.add_zero,
      Nat.sub_zero, Nat.one_mul]
    ring
  · rfl

theorem gemvM1_solves (served : Served args) (row : args.ops.m = 1)
    (columns : args.ops.n ≠ 1) {a b : Block Value} {column : Piece}
    {nSub rem : Nat} (vector : HoldsVector args a)
    (packed : args.ops.mtagB = .reordered ∨ args.ops.mtagB = .pack →
      ∀ p j, p < args.k → j < column.width →
        b.use (rem * args.k + panelSlot args.blksz.NR args.k p j) =
          args.b (bAddress args p (column.start + j)))
    (stored : ¬ (args.ops.mtagB = .reordered ∨ args.ops.mtagB = .pack) →
      ∀ p j, p < args.k → j < column.width →
        b.use (b.rs * p + j) = args.b (bAddress args p (column.start + j))) :
    Solves args
      (args.gemvM1Call a b column.start column.width nSub rem) ⟨0, 1⟩
      column := by
  refine ⟨rfl, rfl, ?_⟩
  intro i j inRow inColumn
  have first : i = 0 := Nat.lt_one_iff.mp inRow
  subst first
  have tile := served.row row columns
  refine @elementUpdate_eq Value args _ 0 j _ _
    (gemvM1Access args.kernel args.ops.mtagB
      (args.gemvM1Call a b column.start column.width nSub rem))
    ?_ rfl ?_ ?_ ?_ ⟨rfl, rfl⟩ rfl
  · unfold access
    exact if_pos ⟨served.mr.trans tile.1, rfl⟩
  · intro p below
    refine (vector p below).trans ?_
    rw [Nat.zero_add, Nat.mul_zero, Nat.zero_add]
  · intro p below
    rw [gemvM1_right served rfl below]
    split_ifs with panels
    · exact packed panels p j below inColumn
    · exact stored panels p j below inColumn
  · change column.start * args.ops.csC + j = _
    rw [tile.2, Nat.zero_add, Nat.mul_zero, Nat.zero_add, Nat.mul_one,
      Nat.one_mul]

theorem tinyVectorA_holds : HoldsVector args args.tinyVectorA := by
  intro p _
  unfold FrameArgs.tinyVectorA
  split_ifs with strided
  · rfl
  · rw [not_not.mp strided, Nat.one_mul]

theorem vectorA_holds : HoldsVector args args.vectorA := by
  intro p below
  unfold FrameArgs.vectorA FrameArgs.rowsA
  split_ifs with strided
  · have slot := @Packers.rows_slot Value args.packers 1 args.k args.ops.rsA
      args.ops.csA 0 p args.a Nat.one_pos below
    rw [Nat.mul_zero, Nat.mul_zero, Nat.zero_add, Nat.zero_add] at slot
    exact slot
  · rw [not_not.mp strided, Nat.one_mul]

/-- The columns of a vector problem that are read as they are stored. -/
theorem vector_strided (served : Served args) (columns : args.ops.n ≠ 1)
    (stored : ¬ (args.ops.mtagB = .reordered ∨ args.ops.mtagB = .pack)) :
    args.ops.mtagB ≠ .reordered ∧ args.ops.csB = 1 := by
  rcases not_or.mp stored with ⟨reordered, packed⟩
  refine ⟨reordered, ?_⟩
  cases known : args.ops.mtagB with
  | unpacked => exact served.unpacked known columns
  | pack => exact absurd known packed
  | packKc => exact absurd known served.tagB
  | reordered => exact absurd known reordered

theorem tinyVector_solves (served : Served args) (row : args.ops.m = 1)
    (columns : args.ops.n ≠ 1) :
    Solves args args.dlpGemvRowvarTiny ⟨0, 1⟩ ⟨0, args.ops.n⟩ := by
  unfold FrameArgs.dlpGemvRowvarTiny
  dsimp only
  rw [if_neg columns]
  split_ifs with reordered packed
  · apply @gemvM1_solves Value args served row columns _ _
      ⟨0, args.ops.n⟩ _ _ tinyVectorA_holds
    · intro _ p j _ _
      dsimp only
      rw [bAddress, if_pos reordered, Nat.zero_mul, Nat.zero_add,
        Nat.zero_add]
    · intro stored
      exact absurd (Or.inl reordered) stored
  · apply @gemvM1_solves Value args served row columns _ _
      ⟨0, args.ops.n⟩ _ _ tinyVectorA_holds
    · intro _ p j below inColumn
      dsimp only
      rw [Nat.zero_mul, Nat.zero_add, Nat.zero_add,
        bAddress_strided reordered, Nat.add_comm (args.ops.rsB * p)]
      exact args.packers.panels_slot _ served.NR_pos inColumn below
    · intro stored
      exact absurd (Or.inr packed) stored
  · apply @gemvM1_solves Value args served row columns _ _
      ⟨0, args.ops.n⟩ _ _ tinyVectorA_holds
    · intro panels
      exact absurd panels (not_or.mpr ⟨reordered, packed⟩)
    · intro stored p j _ _
      dsimp only
      rw [bAddress_strided reordered,
        (vector_strided served columns stored).2, Nat.one_mul, Nat.zero_add]

/-- The panel that the `m == 1` loop packs. -/
theorem packedRow_slot (served : Served args) {jc nc0 p j : Nat}
    (below : p < args.k) (inColumn : j < nc0) :
    args.packedRow jc nc0 (panelSlot args.blksz.NR args.k p j) =
      args.b (args.ops.rsB * p + args.ops.csB * (jc + j)) := by
  unfold FrameArgs.packedRow
  rw [pcLoop_single served.k_pos served.shallow, List.foldl_cons,
    List.foldl_nil, copyBlock, Nat.mul_zero, Nat.sub_zero, Nat.zero_add,
    Nat.zero_add,
    if_pos ⟨Nat.zero_le _, panelSlot_lt served.NR_pos inColumn below⟩]
  refine (args.packers.panels_slot _ served.NR_pos inColumn below).trans ?_
  rw [advance_apply]
  congr 1
  ring

theorem gemvM1Step_solves (served : Served args) (row : args.ops.m = 1)
    (columns : args.ops.n ≠ 1) {step : JcStep}
    (ok : StepOk args args.ops.mtagB step) :
    Solves args (args.gemvM1Step step) ⟨0, 1⟩ step.piece := by
  unfold FrameArgs.gemvM1Step
  dsimp only
  split_ifs with reordered packed
  · apply @gemvM1_solves Value args served row columns _ _ step.piece _ _
      vectorA_holds
    · intro _ p j _ _
      change args.b _ = args.b (bAddress args p (step.jc + j))
      rw [bAddress, if_pos reordered,
        panelSlot_shift served.NR_pos (ok.aligned reordered),
        ← ok.panel reordered]
      congr 1
      ring
    · intro stored
      exact absurd (Or.inl reordered) stored
  · apply @gemvM1_solves Value args served row columns _ _ step.piece _ _
      vectorA_holds
    · intro _ p j below inColumn
      dsimp only
      rw [Nat.zero_mul, Nat.zero_add, bAddress_strided reordered]
      exact packedRow_slot served below inColumn
    · intro stored
      exact absurd (Or.inr packed) stored
  · apply @gemvM1_solves Value args served row columns _ _ step.piece _ _
      vectorA_holds
    · intro panels
      exact absurd panels (not_or.mpr ⟨reordered, packed⟩)
    · intro stored p j _ _
      change args.b _ = args.b (bAddress args p (step.jc + j))
      rw [bAddress_strided reordered,
        (vector_strided served columns stored).2]
      congr 1
      ring

/-! ## The frames -/

theorem usesGemv_iff (served : Served args) :
    args.UsesGemv ↔ args.ops.m = 1 ∨ args.ops.n = 1 :=
  and_iff_left served.vector

/-- The tiny frame updates every element once. -/
theorem tiny_updates (served : Served args) :
    dlpExecuteKernel args.kernel args.ops.mtagB args.dlpGemmRowvarTiny =
      tileItems (element args) ⟨0, args.ops.m⟩ ⟨0, args.ops.n⟩ := by
  apply Solves.execute
  unfold FrameArgs.dlpGemmRowvarTiny
  by_cases column : args.ops.n = 1
  · rw [if_pos ((usesGemv_iff served).mpr (Or.inr column))]
    unfold FrameArgs.dlpGemvRowvarTiny
    dsimp only
    rw [if_pos column, column]
    exact gemvN1_solves served column ⟨0, args.ops.m⟩
  · by_cases row : args.ops.m = 1
    · rw [if_pos ((usesGemv_iff served).mpr (Or.inl row)), row]
      exact tinyVector_solves served row column
    · rw [if_neg fun vector =>
        ((usesGemv_iff served).mp vector).elim row column]
      exact gemmCall_solves served row column
        (tinyA_holds served row column) (tinyB_holds served row column)

/-- The five-loop of one thread updates every element once. -/
theorem fiveLoop_updates [OfNat Value 1] (served : Served args) :
    (executeAll args.kernel args.ops.mtagB
        (args.dlpGemmRowvar soleThread)).Perm
      (tileItems (element args) ⟨0, args.ops.m⟩ ⟨0, args.ops.n⟩) := by
  have rowChain : Chain 0 (pcLoop args.ops.m args.blksz.MC args.ops.m 0)
      args.ops.m :=
    pcLoop_chain served.MC_pos args.ops.m (Nat.zero_add _).ge (Nat.zero_le _)
  unfold FrameArgs.dlpGemmRowvar
  by_cases column : args.ops.n = 1
  · rw [if_pos ((usesGemv_iff served).mpr (Or.inr column))]
    unfold FrameArgs.dlpGemvRowvar
    dsimp only
    rw [if_pos column, column]
    have single : Chain 0 ([()].map fun _ => (⟨0, 1⟩ : Piece)) 1 :=
      .cons Nat.one_pos (.nil 1)
    have perm := @executeAll_perm Value args _ _ _ _
      (fun _ row => args.gemvN1Call row.start row.width) _ _
      rowChain single fun _ _ row _ => gemvN1_solves served column row
    rw [List.flatMap_singleton] at perm
    exact perm
  · by_cases row : args.ops.m = 1
    · rw [if_pos ((usesGemv_iff served).mpr (Or.inl row)), row]
      unfold FrameArgs.dlpGemvRowvar
      dsimp only
      rw [if_neg column]
      have single : Chain 0 [(⟨0, 1⟩ : Piece)] 1 :=
        .cons Nat.one_pos (.nil 1)
      have solves (step : JcStep)
          (member : step ∈ args.jcSteps args.ops.mtagB (0, args.ops.n))
          (piece : Piece) (inRows : piece ∈ [(⟨0, 1⟩ : Piece)]) :
          Solves args (args.gemvM1Step step) piece step.piece := by
        rw [List.mem_singleton.mp inRows]
        exact gemvM1Step_solves served row column
          (jcSteps_ok served _ member)
      have perm := @executeAll_perm Value args _ _ _ _
        (fun step _ => args.gemvM1Step step) _ _ single
        (jcSteps_chain served args.ops.mtagB) solves
      rw [List.map_eq_flatMap]
      exact perm
    · rw [if_neg fun vector =>
        ((usesGemv_iff served).mp vector).elim row column]
      have perm := @executeAll_perm Value args _ _ _ _
        (fun step rows => args.gemmCall (args.blockA ⟨0, args.k⟩ rows)
          (args.panelB soleThread step ⟨0, args.k⟩) rows step.piece
          ⟨0, args.k⟩ args.beta true) _ _
        rowChain (jcSteps_chain served args.gemmTagB)
        fun step member rows _ => gemmCall_solves served row column
          (blockA_holds served row column rows)
          (panelB_holds served column (jcSteps_ok served _ member))
      dsimp only
      simp only [pcLoop_single served.k_pos served.shallow,
        List.flatMap_singleton, Nat.zero_add, if_true,
        decide_eq_true served.shallow]
      exact perm

end AoclDlp.Gemm.TinyAgreement
