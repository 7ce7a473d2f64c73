import AoclDlp.Foundations.BlockedGrid
import AoclDlp.Foundations.Span
import AoclDlp.Layout.Chunk
import AoclDlp.Threading.TaskRange

/-!
# Panels of a reordered matrix

The drivers of a reordered `B` walk the columns `NC` at a time and the rows
`KC` at a time.  A thread's column range is aligned to `NR`, not to `NC`, so a
step may start inside a panel; it is then cut at the panel's end and the loop
variable is rewound to the panel's start.  Every step recomputes the panel it
is in from the column, the width and the `NC` of the whole matrix.

This module embeds that loop nest and the offset of a tile, and describes the
packed image of the whole matrix by the slot of an element, which mentions no
thread.
-/

namespace AoclDlp.Layout.Panel

open AoclDlp.Foundations.BlockedGrid
open AoclDlp.Foundations.Rounding
open AoclDlp.Foundations.Span
open AoclDlp.Layout.Chunk

/-! ## Panel arithmetic of the source -/

/-- `dlp_gemm_get_Bpanel_width_for_kmd_traversal`. -/
def dlpGemmGetBpanelWidthForKmdTraversal (jc n NC NR : Nat) : Nat :=
  let nModNR := n % NR
  if n % NC ≠ 0 then
    let nLastLoop := n / NC * NC
    if nLastLoop ≤ jc then
      if nModNR ≠ 0 then n - nLastLoop + (NR - nModNR) else n - nLastLoop
    else NC
  else NC

/-- The outputs of `dlp_gemm_get_B_panel_reordered_start_offset_width`. -/
structure PanelPosition where
  panelStart : Nat
  panelOffset : Nat
  panelWidth : Nat
  panelWidthKmdTrav : Nat
  deriving DecidableEq, Repr

/-- `dlp_gemm_get_B_panel_reordered_start_offset_width`. -/
def dlpGemmGetBPanelReorderedStartOffsetWidth
    (jc n NC NR panelWidth : Nat) : PanelPosition :=
  let panelStart := jc / NC * NC
  let panelOffset := jc - panelStart
  { panelStart := panelStart
    panelOffset := panelOffset
    panelWidth :=
      if panelStart + NC < jc + panelWidth then NC - panelOffset
      else panelWidth
    panelWidthKmdTrav := dlpGemmGetBpanelWidthForKmdTraversal jc n NC NR }

/-- `dlp_gemm_adjust_B_panel_reordered_jc`. -/
def dlpGemmAdjustBPanelReorderedJc (panelStart : Nat) : Nat :=
  panelStart

/-- Block sizes of a reorder: the context's `NR`, `NC`, `KC` and the kernel
granularities. -/
structure Blocks where
  NR : Nat
  minNR : Nat
  NC : Nat
  KC : Nat
  kFactor : Nat
  deriving DecidableEq, Repr

/-- Block sizes that the reference walk accepts. -/
structure Blocks.Legal (blocks : Blocks) : Prop where
  widths : Widths blocks.NR blocks.minNR
  KC_pos : 0 < blocks.KC
  kFactor_pos : 0 < blocks.kFactor
  kFactor_dvd : blocks.kFactor ∣ blocks.KC
  NC_pos : 0 < blocks.NC
  NR_dvd : blocks.NR ∣ blocks.NC

/-- The source's own legality test, with an `NC` made of whole panels. -/
theorem Blocks.legal_of_accepted {blocks : Blocks}
    (accepted : dlpReorderRefBlocksLegal blocks.NR blocks.minNR blocks.KC
      blocks.kFactor = true)
    (positive : 0 < blocks.NC) (divides : blocks.NR ∣ blocks.NC) :
    blocks.Legal := by
  simp only [dlpReorderRefBlocksLegal, Bool.and_eq_true, decide_eq_true_eq,
    beq_iff_eq] at accepted
  rcases accepted with ⟨⟨⟨⟨⟨nrPos, kcPos⟩, minPos⟩, kfPos⟩, nrMod⟩, kcMod⟩
  exact ⟨⟨nrPos, minPos, Nat.dvd_of_mod_eq_zero nrMod⟩, kcPos, kfPos,
    Nat.dvd_of_mod_eq_zero kcMod, positive, divides⟩

/-- One iteration of the `jc` loop. -/
structure JcStep where
  jc : Nat
  nc0 : Nat
  jcCurLoop : Nat
  jcCurLoopRem : Nat
  nSubUpdated : Nat
  deriving DecidableEq, Repr

/-- The `jc` loop of the reordered drivers over `[jc, jcEnd)`. -/
def jcLoop (n NC minNR jcEnd : Nat) : Nat → Nat → List JcStep
  | 0, _ => []
  | fuel + 1, jc =>
      if jc < jcEnd then
        let nc0 := min (jcEnd - jc) NC
        let position :=
          dlpGemmGetBPanelReorderedStartOffsetWidth jc n NC minNR nc0
        ⟨jc, position.panelWidth, position.panelStart,
            position.panelOffset, position.panelWidthKmdTrav⟩ ::
          jcLoop n NC minNR jcEnd fuel
            (dlpGemmAdjustBPanelReorderedJc position.panelStart + NC)
      else []

/-- The `pc` loop: the pairs `(pc, kc0)`. -/
def pcLoop (k KC : Nat) : Nat → Nat → List Piece
  | 0, _ => []
  | fuel + 1, pc =>
      if pc < k then
        ⟨pc, min (k - pc) KC⟩ :: pcLoop k KC fuel (pc + KC)
      else []

/-- A tile handed to the packer: one `jc` step at one `pc`. -/
structure Tile where
  jc : Nat
  nc0 : Nat
  pc : Nat
  kc0 : Nat
  off : Nat
  deriving DecidableEq, Repr

/-- The tile of a `jc` step at a `pc` step, with its packed offset. -/
def tileAt (blocks : Blocks) (k : Nat) (step : JcStep) (row : Piece) :
    Tile where
  jc := step.jc
  nc0 := step.nc0
  pc := row.start
  kc0 := row.width
  off :=
    step.jcCurLoop * dlpReorderRoundUp k blocks.kFactor +
      step.nSubUpdated * row.start +
      step.jcCurLoopRem * dlpReorderRoundUp row.width blocks.kFactor

/-- The columns `[start, stop)` of a tile. -/
def Tile.slice (blocks : Blocks) (start stop : Nat) (tile : Tile) :
    Tile where
  jc := tile.jc + start
  nc0 := stop - start
  pc := tile.pc
  kc0 := tile.kc0
  off := tile.off + start * dlpReorderRoundUp tile.kc0 blocks.kFactor

/-- The tiles of one thread's column range, in execution order. -/
def rangeTiles (blocks : Blocks) (n k : Nat) (range : Nat × Nat) :
    List Tile :=
  (jcLoop n blocks.NC blocks.minNR range.2 range.2 range.1).flatMap
    fun step => (pcLoop k blocks.KC k 0).map (tileAt blocks k step)

/-! ## The loops visit consecutive pieces -/

theorem pcLoop_eq_nil {k KC pc : Nat} (fuel : Nat) (done : k ≤ pc) :
    pcLoop k KC fuel pc = [] := by
  cases fuel with
  | zero => rfl
  | succ fuel =>
      unfold pcLoop
      exact if_neg (Nat.not_lt.mpr done)

theorem pcLoop_first {k : Nat} (KC : Nat) (depth : 0 < k) :
    ∃ fuel, k = fuel + 1 ∧
      pcLoop k KC k 0 = ⟨0, min k KC⟩ :: pcLoop k KC fuel KC := by
  cases k with
  | zero => exact absurd depth (lt_irrefl 0)
  | succ fuel =>
      refine ⟨fuel, rfl, ?_⟩
      rw [pcLoop, if_pos depth, Nat.zero_add, Nat.sub_zero]

theorem pcLoop_bounds {k KC fuel pc : Nat} {row : Piece}
    (member : row ∈ pcLoop k KC fuel pc) :
    pc ≤ row.start ∧ row.start < k ∧
      row.width = min (k - row.start) KC := by
  induction fuel generalizing pc with
  | zero => cases member
  | succ fuel ih =>
      unfold pcLoop at member
      by_cases inside : pc < k
      · rw [if_pos inside] at member
        rcases List.mem_cons.mp member with rfl | later
        · exact ⟨le_rfl, inside, rfl⟩
        · rcases ih later with ⟨behind, rest⟩
          exact ⟨(Nat.le_add_right pc KC).trans behind, rest⟩
      · rw [if_neg inside] at member
        cases member

theorem pcLoop_chain {k KC : Nat} (positive : 0 < KC) (fuel : Nat) {pc : Nat}
    (enough : k ≤ pc + fuel) (bounded : pc ≤ k) :
    Chain pc (pcLoop k KC fuel pc) k := by
  induction fuel generalizing pc with
  | zero =>
      have done : pc = k := by omega
      rw [done]
      exact .nil k
  | succ fuel ih =>
      unfold pcLoop
      by_cases inside : pc < k
      · rw [if_pos inside]
        apply Chain.cons (by omega)
        by_cases whole : pc + KC ≤ k
        · rw [min_eq_right (by omega)]
          exact ih (by omega) whole
        · rw [min_eq_left (by omega), Nat.add_sub_of_le bounded]
          cases fuel with
          | zero => exact .nil k
          | succ fuel =>
              unfold pcLoop
              rw [if_neg (by omega)]
              exact .nil k
      · rw [if_neg inside, le_antisymm bounded (Nat.le_of_not_lt inside)]
        exact .nil k

theorem pcLoop_mem {k KC : Nat} {fuel pc : Nat} (aligned : KC ∣ pc)
    {row : Piece} (member : row ∈ pcLoop k KC fuel pc) :
    KC ∣ row.start ∧ row.start < k ∧
      row.width = min (k - row.start) KC := by
  induction fuel generalizing pc with
  | zero => cases member
  | succ fuel ih =>
      unfold pcLoop at member
      by_cases inside : pc < k
      · rw [if_pos inside] at member
        rcases List.mem_cons.mp member with rfl | later
        · exact ⟨aligned, inside, rfl⟩
        · exact ih (Nat.dvd_add aligned dvd_rfl) later
      · rw [if_neg inside] at member
        cases member

/-- The column piece of a step. -/
def JcStep.piece (step : JcStep) : Piece :=
  ⟨step.jc, step.nc0⟩

/-- A step's panel data, recomputed from its column. -/
structure JcStep.InPanel (n NC minNR : Nat) (step : JcStep) : Prop where
  start : step.jcCurLoop = blockStart step.jc NC
  rem : step.jcCurLoopRem = step.jc - blockStart step.jc NC
  width : step.nSubUpdated =
    dlpGemmGetBpanelWidthForKmdTraversal step.jc n NC minNR
  fits : step.jc + step.nc0 ≤ blockStart step.jc NC + NC

theorem panelWidth_eq {jc n NC NR jcEnd : Nat} (positive : 0 < NC)
    (inside : jc < jcEnd) :
    (dlpGemmGetBPanelReorderedStartOffsetWidth jc n NC NR
        (min (jcEnd - jc) NC)).panelWidth =
      min (jcEnd - jc) (blockStart jc NC + NC - jc) := by
  have lower := blockStart_le jc NC
  have close := lt_blockStart_add positive jc
  change (if blockStart jc NC + NC < jc + min (jcEnd - jc) NC then
    NC - (jc - blockStart jc NC) else min (jcEnd - jc) NC) = _
  split <;> omega

theorem jcLoop_eq_nil (n NC minNR : Nat) {jcEnd jc : Nat} (fuel : Nat)
    (done : jcEnd ≤ jc) : jcLoop n NC minNR jcEnd fuel jc = [] := by
  cases fuel with
  | zero => rfl
  | succ fuel =>
      unfold jcLoop
      exact if_neg (Nat.not_lt.mpr done)

theorem jcLoop_chain (n minNR : Nat) {NC jcEnd : Nat} (positive : 0 < NC)
    (fuel : Nat) {jc : Nat} (enough : jcEnd ≤ jc + fuel)
    (bounded : jc ≤ jcEnd) :
    Chain jc ((jcLoop n NC minNR jcEnd fuel jc).map JcStep.piece) jcEnd := by
  induction fuel generalizing jc with
  | zero =>
      have done : jc = jcEnd := by omega
      rw [done]
      exact .nil jcEnd
  | succ fuel ih =>
      unfold jcLoop
      by_cases inside : jc < jcEnd
      · have close := lt_blockStart_add positive jc
        rw [if_pos inside, List.map_cons]
        simp only [JcStep.piece, panelWidth_eq positive inside]
        apply Chain.cons (by omega)
        change Chain _ ((jcLoop n NC minNR jcEnd fuel
          (blockStart jc NC + NC)).map JcStep.piece) jcEnd
        by_cases whole : blockStart jc NC + NC ≤ jcEnd
        · rw [min_eq_right (by omega), Nat.add_sub_of_le close.le]
          exact ih (by omega) whole
        · rw [min_eq_left (by omega), Nat.add_sub_of_le bounded,
            jcLoop_eq_nil n NC minNR fuel (by omega)]
          exact .nil jcEnd
      · rw [if_neg inside, le_antisymm bounded (Nat.le_of_not_lt inside)]
        exact .nil jcEnd

theorem jcLoop_bounds {n NC minNR jcEnd fuel jc : Nat} (positive : 0 < NC)
    {step : JcStep} (member : step ∈ jcLoop n NC minNR jcEnd fuel jc) :
    jc ≤ step.jc ∧ step.jc < jcEnd ∧
      step.nc0 = min (jcEnd - step.jc)
        (blockStart step.jc NC + NC - step.jc) := by
  induction fuel generalizing jc with
  | zero => cases member
  | succ fuel ih =>
      unfold jcLoop at member
      by_cases inside : jc < jcEnd
      · rw [if_pos inside] at member
        have close := lt_blockStart_add positive jc
        rcases List.mem_cons.mp member with rfl | later
        · refine ⟨le_rfl, inside, ?_⟩
          exact @panelWidth_eq jc n NC minNR jcEnd positive inside
        · change step ∈ jcLoop n NC minNR jcEnd fuel (blockStart jc NC + NC)
            at later
          have bounds := ih later
          exact ⟨by omega, bounds.2⟩
      · rw [if_neg inside] at member
        cases member

theorem jcLoop_mem {n NC minNR jcEnd NR : Nat} (positive : 0 < NC)
    (divides : NR ∣ NC) {fuel jc : Nat} (aligned : NR ∣ jc) {step : JcStep}
    (member : step ∈ jcLoop n NC minNR jcEnd fuel jc) :
    NR ∣ step.jc ∧ step.InPanel n NC minNR := by
  induction fuel generalizing jc with
  | zero => cases member
  | succ fuel ih =>
      unfold jcLoop at member
      by_cases inside : jc < jcEnd
      · rw [if_pos inside] at member
        rcases List.mem_cons.mp member with rfl | later
        · refine ⟨aligned, rfl, rfl, rfl, ?_⟩
          have close := lt_blockStart_add positive jc
          simp only [panelWidth_eq positive inside]
          omega
        · apply ih _ later
          exact Nat.dvd_add (divides.trans (dvd_blockStart jc NC)) divides
      · rw [if_neg inside] at member
        cases member

/-! ## The packed image as a blocked grid -/

section Image

variable {blocks : Blocks}

/-- The padded cells of a packed `k` by `n` matrix. -/
def imageGrid (legal : blocks.Legal) (n k : Nat) : Grid where
  cols := roundUp n blocks.minNR
  rows := roundUp k blocks.kFactor
  panelCols := blocks.NC
  blockRows := blocks.KC
  panelCols_pos := legal.NC_pos
  blockRows_pos := legal.KC_pos

theorem Blocks.Legal.minNR_dvd_NC (legal : blocks.Legal) :
    blocks.minNR ∣ blocks.NC :=
  legal.widths.divides.trans legal.NR_dvd

/-- The panel width for `k` traversal is the padded width of the panel. -/
theorem kmdTraversal_eq_width (legal : blocks.Legal) {jc n : Nat} (k : Nat)
    (below : jc < n) :
    dlpGemmGetBpanelWidthForKmdTraversal jc n blocks.NC blocks.minNR =
      (imageGrid legal n k).width (blockStart jc blocks.NC) := by
  have minPos := legal.widths.minNR_pos
  have covers := le_roundUp minPos n
  have lower := blockStart_le jc blocks.NC
  have close := lt_blockStart_add legal.NC_pos n
  change _ = min blocks.NC
    (roundUp n blocks.minNR - blockStart jc blocks.NC)
  have wholePanel (before : blockStart jc blocks.NC <
      blockStart n blocks.NC) :
      blocks.NC ≤ roundUp n blocks.minNR - blockStart jc blocks.NC := by
    have next := add_le_of_dvd_lt (dvd_blockStart jc blocks.NC)
      (dvd_blockStart n blocks.NC) before
    have inside := blockStart_le n blocks.NC
    omega
  unfold dlpGemmGetBpanelWidthForKmdTraversal
  change (if n % blocks.NC ≠ 0 then
    if blockStart n blocks.NC ≤ jc then
      if n % blocks.minNR ≠ 0 then
        n - blockStart n blocks.NC + (blocks.minNR - n % blocks.minNR)
      else n - blockStart n blocks.NC
    else blocks.NC
  else blocks.NC) = _
  by_cases partialPanel : n % blocks.NC = 0
  · rw [if_neg (not_not.mpr partialPanel)]
    have exactEnd : blockStart n blocks.NC = n :=
      blockStart_eq (Nat.dvd_of_mod_eq_zero partialPanel) le_rfl
        (Nat.lt_add_of_pos_right legal.NC_pos)
    exact (min_eq_left (wholePanel (by omega))).symm
  · rw [if_pos partialPanel]
    by_cases last : blockStart n blocks.NC ≤ jc
    · have same : blockStart jc blocks.NC = blockStart n blocks.NC :=
        blockStart_eq (dvd_blockStart n blocks.NC) last
          (below.trans close)
      have shortPanel : roundUp n blocks.minNR ≤
          blockStart n blocks.NC + blocks.NC :=
        roundUp_le_of_dvd minPos
          (Nat.dvd_add
            (legal.minNR_dvd_NC.trans (dvd_blockStart n blocks.NC))
            legal.minNR_dvd_NC) close.le
      rw [if_pos last, same, min_eq_right (by omega),
        roundUp_eq_add_gap minPos]
      have inside := blockStart_le n blocks.NC
      split <;> omega
    · rw [if_neg last]
      exact (min_eq_left (wholePanel (by omega))).symm

/-- The padded height of a `pc` block is its height in the image. -/
theorem roundUp_kc0_eq_height (legal : blocks.Legal) (n : Nat) {k pc : Nat}
    (aligned : blocks.KC ∣ pc) (below : pc < k) :
    roundUp (min (k - pc) blocks.KC) blocks.kFactor =
      (imageGrid legal n k).height pc := by
  have kPos := legal.kFactor_pos
  have pcAligned : blocks.kFactor ∣ pc := legal.kFactor_dvd.trans aligned
  have split := roundUp_add_of_dvd kPos pcAligned (k - pc)
  rw [Nat.add_sub_of_le below.le] at split
  change _ = min blocks.KC (roundUp k blocks.kFactor - pc)
  rw [split, Nat.add_sub_cancel_left]
  rcases Nat.le_total (k - pc) blocks.KC with short | full
  · rw [min_eq_left short, min_eq_right]
    exact roundUp_le_of_dvd kPos legal.kFactor_dvd short
  · rw [min_eq_right full, roundUp_of_dvd kPos legal.kFactor_dvd,
      min_eq_left]
    exact full.trans (le_roundUp kPos (k - pc))

/-- What the proofs use about a tile of the walk. -/
structure Tile.Placed (legal : blocks.Legal) (n k : Nat) (tile : Tile) :
    Prop where
  aligned : blocks.NR ∣ tile.jc
  nonempty : 0 < tile.nc0
  row_dvd : blocks.KC ∣ tile.pc
  row_lt : tile.pc < k
  kc0_eq : tile.kc0 = min (k - tile.pc) blocks.KC
  ends : tile.jc + tile.nc0 = n ∨
    (blocks.NR ∣ tile.nc0 ∧ tile.jc + tile.nc0 ≤ n)
  inPanel : tile.jc + tile.nc0 ≤ blockStart tile.jc blocks.NC + blocks.NC
  off_eq : tile.off =
    (imageGrid legal n k).base (blockStart tile.jc blocks.NC) tile.pc
      (tile.jc - blockStart tile.jc blocks.NC)

namespace Tile.Placed

variable {legal : blocks.Legal} {n k : Nat} {tile : Tile}

theorem column_end_le (placed : tile.Placed legal n k) :
    tile.jc + tile.nc0 ≤ n := by
  rcases placed.ends with last | inner
  · exact last.le
  · exact inner.2

theorem column_lt (placed : tile.Placed legal n k) : tile.jc < n :=
  (Nat.lt_add_of_pos_right placed.nonempty).trans_le placed.column_end_le

theorem kc0_pos (placed : tile.Placed legal n k) : 0 < tile.kc0 := by
  rw [placed.kc0_eq]
  exact lt_min (Nat.sub_pos_of_lt placed.row_lt) legal.KC_pos

theorem origin (placed : tile.Placed legal n k) :
    (imageGrid legal n k).Origin (blockStart tile.jc blocks.NC)
      tile.pc where
  panel_dvd := dvd_blockStart tile.jc blocks.NC
  panel_lt := ((blockStart_le _ _).trans_lt placed.column_lt).trans_le
    (le_roundUp legal.widths.minNR_pos n)
  block_dvd := placed.row_dvd
  block_lt := placed.row_lt.trans_le (le_roundUp legal.kFactor_pos k)

theorem height_eq (placed : tile.Placed legal n k) :
    roundUp tile.kc0 blocks.kFactor =
      (imageGrid legal n k).height tile.pc := by
  rw [placed.kc0_eq]
  exact roundUp_kc0_eq_height legal n placed.row_dvd placed.row_lt

theorem padded_end_eq (placed : tile.Placed legal n k) :
    tile.jc + roundUp tile.nc0 blocks.minNR =
      roundUp (tile.jc + tile.nc0) blocks.minNR :=
  (roundUp_add_of_dvd legal.widths.minNR_pos
    (legal.widths.divides.trans placed.aligned) tile.nc0).symm

theorem padded_fits (placed : tile.Placed legal n k) :
    tile.jc - blockStart tile.jc blocks.NC +
        roundUp tile.nc0 blocks.minNR ≤
      (imageGrid legal n k).width (blockStart tile.jc blocks.NC) := by
  have minPos := legal.widths.minNR_pos
  have lower := blockStart_le tile.jc blocks.NC
  have joined := placed.padded_end_eq
  have inImage : roundUp (tile.jc + tile.nc0) blocks.minNR ≤
      roundUp n blocks.minNR :=
    roundUp_le_of_dvd minPos (dvd_roundUp n blocks.minNR)
      (placed.column_end_le.trans (le_roundUp minPos n))
  have inPanel : roundUp (tile.jc + tile.nc0) blocks.minNR ≤
      blockStart tile.jc blocks.NC + blocks.NC :=
    roundUp_le_of_dvd minPos
      (Nat.dvd_add
        (legal.minNR_dvd_NC.trans (dvd_blockStart tile.jc blocks.NC))
        legal.minNR_dvd_NC) placed.inPanel
  change _ ≤ min blocks.NC
    (roundUp n blocks.minNR - blockStart tile.jc blocks.NC)
  apply le_min
  · omega
  · omega

theorem column_panel (placed : tile.Placed legal n k) {col : Nat}
    (inside : col < tile.nc0) :
    blockStart (tile.jc + col) blocks.NC = blockStart tile.jc blocks.NC := by
  have lower := blockStart_le tile.jc blocks.NC
  have inPanel := placed.inPanel
  exact blockStart_eq (dvd_blockStart tile.jc blocks.NC) (by omega)
    (by omega)

/-- An aligned slice of a placed tile is placed. -/
theorem slice (placed : tile.Placed legal n k) {start stop : Nat}
    (aligned : blocks.NR ∣ start) (nonempty : start < stop)
    (ends : stop = tile.nc0 ∨ (blocks.NR ∣ stop ∧ stop ≤ tile.nc0)) :
    (tile.slice blocks start stop).Placed legal n k := by
  have stopLe : stop ≤ tile.nc0 := by
    rcases ends with last | inner
    · exact last.le
    · exact inner.2
  have columnEnd := placed.column_end_le
  have panel := placed.column_panel (nonempty.trans_le stopLe)
  have lower := blockStart_le tile.jc blocks.NC
  have joined : tile.jc + start + (stop - start) = tile.jc + stop := by
    omega
  refine ⟨Nat.dvd_add placed.aligned aligned, Nat.sub_pos_of_lt nonempty,
    placed.row_dvd, placed.row_lt, placed.kc0_eq, ?_, ?_, ?_⟩
  · change tile.jc + start + (stop - start) = n ∨
      (blocks.NR ∣ stop - start ∧ tile.jc + start + (stop - start) ≤ n)
    rw [joined]
    rcases ends with rfl | inner
    · rcases placed.ends with last | whole
      · exact Or.inl last
      · exact Or.inr ⟨Nat.dvd_sub whole.1 aligned, whole.2⟩
    · exact Or.inr ⟨Nat.dvd_sub inner.1 aligned, by omega⟩
  · change tile.jc + start + (stop - start) ≤
      blockStart (tile.jc + start) blocks.NC + blocks.NC
    have inPanel := placed.inPanel
    omega
  · change tile.off + start * dlpReorderRoundUp tile.kc0 blocks.kFactor =
      (imageGrid legal n k).base (blockStart (tile.jc + start) blocks.NC)
        tile.pc (tile.jc + start - blockStart (tile.jc + start) blocks.NC)
    rw [panel, placed.off_eq, dlpReorderRoundUp_eq legal.kFactor_pos,
      placed.height_eq, Nat.sub_add_comm lower]
    unfold Grid.base
    ring

/-- A strip of a placed tile is placed. -/
theorem strip (placed : tile.Placed legal n k) {jr : Nat}
    (aligned : blocks.NR ∣ jr) (inside : jr < tile.nc0) :
    (tile.slice blocks jr
      (jr + min (tile.nc0 - jr) blocks.NR)).Placed legal n k := by
  have positive := legal.widths.NR_pos
  apply placed.slice aligned (by omega)
  rcases Nat.le_total (tile.nc0 - jr) blocks.NR with last | inner
  · rw [min_eq_left last]
    exact Or.inl (Nat.add_sub_of_le inside.le)
  · rw [min_eq_right inner]
    exact Or.inr ⟨Nat.dvd_add aligned dvd_rfl, by omega⟩

end Tile.Placed

/-- Tiles of an aligned column range are placed. -/
theorem rangeTiles_placed (legal : blocks.Legal) {n k start stop : Nat}
    (aligned : blocks.NR ∣ start) (bounded : start ≤ stop)
    (ends : stop = n ∨ (blocks.NR ∣ stop ∧ stop ≤ n)) {tile : Tile}
    (member : tile ∈ rangeTiles blocks n k (start, stop)) :
    tile.Placed legal n k := by
  rcases List.mem_flatMap.mp member with ⟨step, stepMember, inRow⟩
  rcases List.mem_map.mp inRow with ⟨row, rowMember, rfl⟩
  have chain := jcLoop_chain n blocks.minNR legal.NC_pos stop
    (Nat.le_add_left stop start) bounded
  have stepPiece : step.piece ∈ (jcLoop n blocks.NC blocks.minNR stop stop
      start).map JcStep.piece := List.mem_map_of_mem stepMember
  rcases chain.bounds stepPiece with ⟨_, nonempty, stepEnd⟩
  rcases jcLoop_mem legal.NC_pos legal.NR_dvd aligned stepMember with
    ⟨stepAligned, inPanel⟩
  rcases pcLoop_mem (dvd_zero blocks.KC) rowMember with
    ⟨rowDvd, rowLt, rowWidth⟩
  have stopLe : stop ≤ n := by
    rcases ends with last | inner
    · exact last.le
    · exact inner.2
  have stepLt : step.jc < n :=
    (Nat.lt_add_of_pos_right nonempty).trans_le (stepEnd.trans stopLe)
  refine ⟨stepAligned, nonempty, rowDvd, rowLt, rowWidth, ?_, inPanel.fits,
    ?_⟩
  · change step.jc + step.nc0 = n ∨
      (blocks.NR ∣ step.nc0 ∧ step.jc + step.nc0 ≤ n)
    have inner (endAligned : blocks.NR ∣ step.jc + step.nc0) :
        blocks.NR ∣ step.nc0 ∧ step.jc + step.nc0 ≤ n :=
      ⟨(Nat.dvd_add_right stepAligned).mp endAligned,
        stepEnd.trans stopLe⟩
    rcases chain.stop_or_start stepPiece with last | ⟨next, member, follows⟩
    · change step.jc + step.nc0 = stop at last
      rcases ends with whole | inside
      · exact Or.inl (last.trans whole)
      · exact Or.inr (inner (last ▸ inside.1))
    · rcases List.mem_map.mp member with ⟨nextStep, nextMember, rfl⟩
      change nextStep.jc = step.jc + step.nc0 at follows
      have nextAligned :=
        (jcLoop_mem legal.NC_pos legal.NR_dvd aligned nextMember).1
      exact Or.inr (inner (follows ▸ nextAligned))
  · change step.jcCurLoop * dlpReorderRoundUp k blocks.kFactor +
      step.nSubUpdated * row.start +
      step.jcCurLoopRem * dlpReorderRoundUp row.width blocks.kFactor = _
    rw [inPanel.start, inPanel.rem, inPanel.width,
      dlpReorderRoundUp_eq legal.kFactor_pos,
      dlpReorderRoundUp_eq legal.kFactor_pos, rowWidth,
      roundUp_kc0_eq_height legal n rowDvd rowLt,
      kmdTraversal_eq_width legal k stepLt]
    rfl

/-! ## The slot of an element -/

/-- The packed slot of element `(p, j)`; it mentions no tile and no thread. -/
def slotOf (legal : blocks.Legal) (n k p j : Nat) : Nat :=
  let grid := imageGrid legal n k
  let panel := blockStart j blocks.NC
  let block := blockStart p blocks.KC
  let start := chunkStart n blocks.NR blocks.minNR j
  panel * grid.rows + grid.width panel * block +
    ((start - panel) * grid.height block +
      dlpReorderElemOffset (p - block) (j - start)
        (chunkSlot n blocks.NR blocks.minNR j) blocks.kFactor)

/-- The origin of the block that holds an element. -/
theorem element_origin (legal : blocks.Legal) {n k p j : Nat} (row : p < k)
    (column : j < n) :
    (imageGrid legal n k).Origin (blockStart j blocks.NC)
      (blockStart p blocks.KC) where
  panel_dvd := dvd_blockStart j blocks.NC
  panel_lt := ((blockStart_le _ _).trans_lt column).trans_le
    (le_roundUp legal.widths.minNR_pos n)
  block_dvd := dvd_blockStart p blocks.KC
  block_lt := ((blockStart_le _ _).trans_lt row).trans_le
    (le_roundUp legal.kFactor_pos k)

/-- The chunk of a column stays inside the column's panel. -/
structure ChunkInPanel (legal : blocks.Legal) (n k j : Nat) : Prop where
  panel_le : blockStart j blocks.NC ≤ chunkStart n blocks.NR blocks.minNR j
  start_le : chunkStart n blocks.NR blocks.minNR j ≤ j
  lt_end : j < chunkStart n blocks.NR blocks.minNR j +
    chunkSlot n blocks.NR blocks.minNR j
  end_le : chunkStart n blocks.NR blocks.minNR j +
      chunkSlot n blocks.NR blocks.minNR j ≤
    blockStart j blocks.NC +
      (imageGrid legal n k).width (blockStart j blocks.NC)

theorem chunkInPanel (legal : blocks.Legal) (k : Nat) {n j : Nat}
    (column : j < n) : ChunkInPanel legal n k j := by
  have lower := blockStart_le j blocks.NC
  have panelAligned : blocks.NR ∣ blockStart j blocks.NC :=
    legal.NR_dvd.trans (dvd_blockStart j blocks.NC)
  refine ⟨?_, Widths.chunkStart_le _ _ n j,
    legal.widths.lt_chunkEnd column, ?_⟩
  · exact legal.widths.le_chunkStart_of_dvd panelAligned lower
      (lower.trans column.le)
  · have inImage := legal.widths.chunkEnd_le_roundUp column
    have inPanel := legal.widths.chunkEnd_le_of_dvd
      (Nat.dvd_add panelAligned legal.NR_dvd)
      (lt_blockStart_add legal.NC_pos j) column
    change _ ≤ _ + min blocks.NC
      (roundUp n blocks.minNR - blockStart j blocks.NC)
    omega

theorem row_lt_height (legal : blocks.Legal) (n : Nat) {k p : Nat}
    (row : p < k) :
    p - blockStart p blocks.KC <
      (imageGrid legal n k).height (blockStart p blocks.KC) := by
  have lower := blockStart_le p blocks.KC
  have close := lt_blockStart_add legal.KC_pos p
  have covers := le_roundUp legal.kFactor_pos k
  change _ < min blocks.KC (roundUp k blocks.kFactor - blockStart p blocks.KC)
  omega

theorem kFactor_dvd_height (legal : blocks.Legal) {n k block : Nat}
    (aligned : blocks.KC ∣ block) :
    blocks.kFactor ∣ (imageGrid legal n k).height block := by
  change blocks.kFactor ∣ min blocks.KC (roundUp k blocks.kFactor - block)
  rcases Nat.le_total blocks.KC (roundUp k blocks.kFactor - block) with
    full | short
  · rw [min_eq_left full]
    exact legal.kFactor_dvd
  · rw [min_eq_right short]
    exact Nat.dvd_sub (dvd_roundUp k blocks.kFactor)
      (legal.kFactor_dvd.trans aligned)

/-- Position of an element inside its block, between its chunk's columns. -/
theorem inBlock_bounds (legal : blocks.Legal) {n k p j : Nat} (row : p < k)
    (column : j < n) :
    let grid := imageGrid legal n k
    let block := blockStart p blocks.KC
    let offset := chunkStart n blocks.NR blocks.minNR j -
      blockStart j blocks.NC
    let rest := offset * grid.height block +
      dlpReorderElemOffset (p - block)
        (j - chunkStart n blocks.NR blocks.minNR j)
        (chunkSlot n blocks.NR blocks.minNR j) blocks.kFactor
    rest < grid.width (blockStart j blocks.NC) * grid.height block ∧
      offset ≤ rest / grid.height block ∧
      rest / grid.height block <
        offset + chunkSlot n blocks.NR blocks.minNR j := by
  intro grid block offset rest
  have chunk := chunkInPanel legal k column
  have heightPos := (element_origin legal row column).height_pos
  have low := elemOffset_lt legal.kFactor_pos
    (kFactor_dvd_height legal (dvd_blockStart p blocks.KC))
    (row_lt_height legal n row)
    (show j - chunkStart n blocks.NR blocks.minNR j <
      chunkSlot n blocks.NR blocks.minNR j by
        have := chunk.start_le
        have := chunk.lt_end
        omega)
  have offsetEnd : offset + chunkSlot n blocks.NR blocks.minNR j ≤
      grid.width (blockStart j blocks.NC) := by
    have panelLe := chunk.panel_le
    have endLe := chunk.end_le
    change chunkStart n blocks.NR blocks.minNR j -
      blockStart j blocks.NC + _ ≤
        (imageGrid legal n k).width (blockStart j blocks.NC)
    omega
  have bound : rest <
      (offset + chunkSlot n blocks.NR blocks.minNR j) *
        grid.height block := by
    rw [Nat.add_mul]
    exact Nat.add_lt_add_left low _
  refine ⟨bound.trans_le (Nat.mul_le_mul_right _ offsetEnd), ?_, ?_⟩
  · rw [Nat.le_div_iff_mul_le heightPos]
    exact Nat.le_add_right _ _
  · exact Nat.div_lt_of_lt_mul (by rwa [Nat.mul_comm])

/-- The cell of an element's slot lies in the element's chunk and block. -/
theorem cellOf_slotOf (legal : blocks.Legal) {n k p j : Nat} (row : p < k)
    (column : j < n) :
    let grid := imageGrid legal n k
    let cell := grid.cellOf (slotOf legal n k p j)
    (chunkStart n blocks.NR blocks.minNR j ≤ cell.1 ∧
      cell.1 < chunkStart n blocks.NR blocks.minNR j +
        chunkSlot n blocks.NR blocks.minNR j) ∧
    (blockStart p blocks.KC ≤ cell.2 ∧
      cell.2 < blockStart p blocks.KC +
        grid.height (blockStart p blocks.KC)) := by
  intro grid cell
  have origin := element_origin legal row column
  have panelLe := (chunkInPanel legal k column).panel_le
  rcases inBlock_bounds legal row column with ⟨inside, lower, upper⟩
  have decoded := origin.cellOf_base_add inside
  change cell = _ at decoded
  rw [decoded]
  dsimp only
  refine ⟨⟨?_, ?_⟩, Nat.le_add_right _ _, ?_⟩
  · omega
  · omega
  · exact Nat.add_lt_add_left (Nat.mod_lt _ origin.height_pos) _

theorem slotOf_lt (legal : blocks.Legal) {n k p j : Nat} (row : p < k)
    (column : j < n) :
    slotOf legal n k p j <
      roundUp n blocks.minNR * roundUp k blocks.kFactor := by
  have origin := element_origin legal row column
  have inside := (inBlock_bounds legal row column).1
  have inPanel := origin.inPanel_lt inside
  have panelEnd := origin.panel_end_le
  calc
    slotOf legal n k p j <
        blockStart j blocks.NC * (imageGrid legal n k).rows +
          (imageGrid legal n k).width (blockStart j blocks.NC) *
            (imageGrid legal n k).rows := by
      unfold slotOf
      rw [Nat.add_assoc]
      exact Nat.add_lt_add_left inPanel _
    _ = (blockStart j blocks.NC +
          (imageGrid legal n k).width (blockStart j blocks.NC)) *
            (imageGrid legal n k).rows := by ring
    _ ≤ roundUp n blocks.minNR * roundUp k blocks.kFactor :=
      Nat.mul_le_mul_right _ panelEnd

/-- No two elements share a slot. -/
theorem slotOf_injective (legal : blocks.Legal) {n k p j p2 j2 : Nat}
    (row : p < k) (column : j < n) (row2 : p2 < k) (column2 : j2 < n)
    (equal : slotOf legal n k p j = slotOf legal n k p2 j2) :
    p = p2 ∧ j = j2 := by
  have cell := cellOf_slotOf legal row column
  have cell2 := cellOf_slotOf legal row2 column2
  rw [equal] at cell
  dsimp only at cell cell2
  generalize (imageGrid legal n k).cellOf (slotOf legal n k p2 j2) =
    common at cell cell2
  have chunk := legal.widths.chunk_of_inside cell.1.1 cell.1.2
  have chunk2 := legal.widths.chunk_of_inside cell2.1.1 cell2.1.2
  have startEq : chunkStart n blocks.NR blocks.minNR j =
      chunkStart n blocks.NR blocks.minNR j2 :=
    chunk.1.symm.trans chunk2.1
  have slotEq : chunkSlot n blocks.NR blocks.minNR j =
      chunkSlot n blocks.NR blocks.minNR j2 :=
    chunk.2.symm.trans chunk2.2
  have inPanel := chunkInPanel legal k column
  have inPanel2 := chunkInPanel legal k column2
  have origin := element_origin legal row column
  have origin2 := element_origin legal row2 column2
  have panelEq : blockStart j blocks.NC = blockStart j2 blocks.NC := by
    rw [← origin.blockStart_column (inPanel.panel_le.trans cell.1.1)
      (cell.1.2.trans_le inPanel.end_le)]
    exact origin2.blockStart_column (inPanel2.panel_le.trans cell2.1.1)
      (cell2.1.2.trans_le inPanel2.end_le)
  have blockEq : blockStart p blocks.KC = blockStart p2 blocks.KC := by
    rw [← origin.blockStart_row cell.2.1 cell.2.2]
    exact origin2.blockStart_row cell2.2.1 cell2.2.2
  unfold slotOf at equal
  rw [panelEq, blockEq, startEq, slotEq] at equal
  have offsets := Nat.add_left_cancel (Nat.add_left_cancel equal)
  have start2 := inPanel2.start_le
  have end2 := inPanel2.lt_end
  have start1 := inPanel.start_le
  have end1 := inPanel.lt_end
  rw [startEq] at start1
  rw [startEq, slotEq] at end1
  rcases elemOffset_injective legal.kFactor_pos
      (show j - chunkStart n blocks.NR blocks.minNR j2 <
        chunkSlot n blocks.NR blocks.minNR j2 by omega)
      (show j2 - chunkStart n blocks.NR blocks.minNR j2 <
        chunkSlot n blocks.NR blocks.minNR j2 by omega) offsets with
    ⟨rowEq, columnEq⟩
  have rowLe := blockStart_le p blocks.KC
  have rowLe2 := blockStart_le p2 blocks.KC
  constructor
  · omega
  · omega

end Image

end AoclDlp.Layout.Panel
