import AoclDlp.Quant.GroupReorder
import AoclDlp.Quant.SymQuant

/-!
# The sym-quant frame on a reordered B

`aocl_reorder_s8s8s32os32_sym_quant` lays a single column out tightly when the
groups divide K and packs panels otherwise.  The frame of the GEMM decides on
its own, from the table and the group size, whether to run a GEMV branch and
which `KC` to step by, and addresses the tiles and the column sums of a buffer
that records none of these decisions.
-/

namespace AoclDlp.Quant.ReorderedFrame

open AoclDlp.Config.BlockSize
open AoclDlp.Config.LocalContext
open AoclDlp.Foundations.Rounding
open AoclDlp.Foundations.Span
open AoclDlp.Layout.Chunk
open AoclDlp.Layout.GroupTiles
open AoclDlp.Layout.Panel
open AoclDlp.Layout.ReorderRef
open AoclDlp.Layout.S8s8s32
open AoclDlp.Layout.TeamTiles
open AoclDlp.Quant.GroupReorder
open AoclDlp.Quant.GroupSize
open AoclDlp.Quant.KernelInit
open AoclDlp.Quant.SymQuant
open AoclDlp.Threading.TaskRange
open AoclDlp.Threading.WorkPartition

/-! ## The tight column -/

/-- `dlp_gemm_col_sum_byte_offset`. -/
def dlpGemmColSumByteOffset (k : Nat) : Nat :=
  dlpMakeMultipleOfN k 4

/-- One element of the tight column: store it and add it to the sum. -/
def columnElement (rsB colSum : Nat) (unpacked : Bytes) (p : Nat)
    (buffer : ReorderBuffer) : ReorderBuffer where
  image := Function.update buffer.image p (unpacked (p * rsB))
  words := Function.update buffer.words colSum
    (buffer.words colSum + widen (unpacked (p * rsB)))

/-- One group of the tight column: clear the sum, store and add the elements,
multiply the sum. -/
def columnGroup (rsB colSum k0 gs : Nat) (unpacked : Bytes)
    (buffer : ReorderBuffer) : ReorderBuffer :=
  let cleared :=
    { buffer with words := Function.update buffer.words colSum 0 }
  let packed := (List.range gs).foldl
    (fun current group =>
      columnElement rsB colSum unpacked (k0 + group) current) cleared
  { packed with
    words := Function.update packed.words colSum
      (packed.words colSum * 128) }

/-- The loop over the groups of the tight column. -/
def columnLoop (groupSize k rsB : Nat) (unpacked : Bytes) :
    Nat → Nat → Nat → ReorderBuffer → ReorderBuffer
  | 0, _, _, buffer => buffer
  | fuel + 1, k0, colSum, buffer =>
      if k0 < k then
        columnLoop groupSize k rsB unpacked fuel (k0 + groupSize)
          (colSum + 4)
          (columnGroup rsB colSum k0 (min groupSize (k - k0)) unpacked
            buffer)
      else buffer

/-- The reorder of a single column whose groups divide K. -/
def reorderColumn (groupSize k rsB : Nat) (unpacked : Bytes)
    (buffer : ReorderBuffer) : ReorderBuffer :=
  columnLoop groupSize k rsB unpacked k 0 (dlpGemmColSumByteOffset k) buffer

/-! ## The entry of the reorder -/

/-- Whether `aocl_reorder_s8s8s32os32_sym_quant` writes the tight column. -/
def WritesColumn (tableKC groupSize n k : Nat) : Prop :=
  n = 1 ∧ k % groupSize = 0 ∧
    dlpGemmAlignKcToGroup tableKC groupSize % groupSize = 0

instance (tableKC groupSize n k : Nat) :
    Decidable (WritesColumn tableKC groupSize n k) :=
  inferInstanceAs (Decidable (_ ∧ _))

/-- The buffer that `aocl_reorder_s8s8s32os32_sym_quant` leaves. -/
def reorderSymQuant {table : DlpGemmBlockSize} {groupSize n k : Nat}
    {numThreads : Int} (rsB csB : Nat)
    (schedule : PackSchedule table groupSize n k (reorderThreads numThreads))
    (unpacked : Bytes) (buffer : ReorderBuffer) : ReorderBuffer :=
  if WritesColumn table.KC groupSize n k then
    reorderColumn groupSize k rsB unpacked buffer
  else
    dlpReorderbNr64S8s8s32o32SymQuant rsB csB schedule unpacked buffer

/-- The layout of that buffer. -/
def reorderLayout (table : DlpGemmBlockSize) (groupSize n k : Nat) :
    BLayout :=
  if WritesColumn table.KC groupSize n k then .column
  else .panels table.NR table.NC (reorderBlksz table groupSize k).KC

/-! ## The frame -/

/-- A kernel call of the five-loop, with the distance between two vectors of
column sums. -/
structure QuantKernelCall where
  call : KernelCall
  sumLd : Nat
  deriving DecidableEq, Repr

/-- The byte address from which a kernel call reads the sum of its column `i`
in a group. -/
def QuantKernelCall.sumAddress (kernel : QuantKernelCall) (group i : Nat) :
    Nat :=
  kernel.call.bColSumVec +
    4 * (kernel.call.bSumOffset + group * kernel.sumLd + i)

/-- The kernel calls of one thread in the `REORDERED` branch of
`dlp_gemm_rowvar_s8s8s32o32_sym_quant`. -/
def fiveLoop (blksz : DlpGemmBlockSize) (groupSize m n k : Nat)
    (thread : DlpGemmThrinfo) : List QuantKernelCall :=
  let kUpdated := dlpMakeMultipleOfN k 4
  let nUpdated := dlpMakeMultipleOfN n 16
  let jcRange := gemmJcRange thread n blksz.NR
  let icRange := gemmIcRange thread m blksz.MR
  (jcLoop n blksz.NC dlpGetPackbS8s8s32o32MinNR jcRange.2 jcRange.2
      jcRange.1).flatMap fun step =>
    (pcLoop k blksz.KC k 0).flatMap fun row =>
      let kc0Updated := dlpMakeMultipleOfN row.width 4
      let bUse := step.jcCurLoop * kUpdated + step.nSubUpdated * row.start +
        step.jcCurLoopRem * kc0Updated
      let bColSumVec := kUpdated * nUpdated +
        4 * (sumPanel blksz.KC groupSize k row.start * nUpdated + step.jc)
      (pcLoop icRange.2 blksz.MC icRange.2 icRange.1).flatMap fun ic =>
        (jrLoop blksz.NR step row ic bUse bColSumVec step.nc0 0 0).map
          fun call => ⟨call, nUpdated⟩

/-- What the frame reads of a reordered B: the tight column and its sums, the
panels of the GEMV branch for one row, or the tiles of the five-loop. -/
inductive FrameReads where
  | column (bUse bColSumVec : Nat)
  | row (NR NC KC : Nat)
  | fiveLoop (NR NC KC : Nat) (calls : List QuantKernelCall)
  deriving DecidableEq, Repr

/-- The layout that the frame presumes. -/
def FrameReads.layout : FrameReads → BLayout
  | .column _ _ => .column
  | .row NR NC KC => .panels NR NC KC
  | .fiveLoop NR NC KC _ => .panels NR NC KC

/-- The kernel calls of the five-loop. -/
def FrameReads.calls : FrameReads → List QuantKernelCall
  | .column _ _ => []
  | .row _ _ _ => []
  | .fiveLoop _ _ _ calls => calls

/-- `dlp_gemm_rowvar_s8s8s32o32_sym_quant` on a reordered B. -/
def dlpGemmRowvarS8s8s32o32SymQuant (globalCntx lcntx : DlpGemmCntx)
    (call : QuantCall) (groupSize : Nat) (thread : DlpGemmThrinfo) :
    FrameReads :=
  let blksz := lcntx.blksz
  let KC := frameKC globalCntx call groupSize
  if TakesGemv globalCntx call groupSize then
    if call.n = 1 then .column 0 (dlpGemmColSumByteOffset call.k)
    else
      .row blksz.NR blksz.NC (dlpGemmAlignKcToGroup blksz.KC groupSize)
  else
    .fiveLoop blksz.NR blksz.NC KC
      (fiveLoop { blksz with KC := KC }
        (normalisedGroupSize groupSize call.k) call.m call.n call.k thread)

/-! ## What the tight column holds -/

section Column

variable {groupSize k rsB : Nat}

/-- The elements stored so far, and the sum of them. -/
theorem columnElements_spec (colSum k0 : Nat) (unpacked : Bytes)
    (buffer : ReorderBuffer) (count : Nat) :
    let packed := (List.range count).foldl
      (fun current group =>
        columnElement rsB colSum unpacked (k0 + group) current) buffer
    (∀ p, packed.image p =
      if k0 ≤ p ∧ p < k0 + count then unpacked (p * rsB)
      else buffer.image p) ∧
    (∀ address, packed.words address =
      if address = colSum then
        buffer.words colSum + ((List.range count).map fun i =>
          widen (unpacked ((k0 + i) * rsB))).sum
      else buffer.words address) := by
  induction count with
  | zero =>
      refine ⟨fun p => (if_neg (by omega)).symm, fun address => ?_⟩
      by_cases atSum : address = colSum
      · rw [if_pos atSum, atSum]
        exact (add_zero _).symm
      · exact (if_neg atSum).symm
  | succ count ih =>
      rcases ih with ⟨image, words⟩
      intro packed
      have last : packed = columnElement rsB colSum unpacked (k0 + count)
          ((List.range count).foldl
            (fun current group =>
              columnElement rsB colSum unpacked (k0 + group) current)
            buffer) := by
        simp only [packed, List.range_succ, List.foldl_append,
          List.foldl_cons, List.foldl_nil]
      rw [last]
      refine ⟨fun p => ?_, fun address => ?_⟩
      · by_cases here : p = k0 + count
        · rw [if_pos (by omega), here]
          exact Function.update_self _ _ _
        · refine (Function.update_of_ne here _ _).trans ?_
          rw [image]
          exact if_congr (by omega) rfl rfl
      · by_cases atSum : address = colSum
        · rw [if_pos atSum, atSum]
          refine (Function.update_self _ _ _).trans ?_
          rw [words, if_pos rfl, List.range_succ, List.map_append,
            List.sum_append, List.map_cons, List.map_nil,
            List.sum_singleton, add_assoc]
        · refine (Function.update_of_ne atSum _ _).trans ?_
          rw [words, if_neg atSum, if_neg atSum]

/-- `128` times the sum of the rows of one group of the column. -/
def columnSum (unpacked : Bytes) (rsB k0 gs : Nat) : BitVec 32 :=
  128 * ((List.range gs).map fun i =>
    widen (unpacked ((k0 + i) * rsB))).sum

theorem columnGroup_spec (colSum k0 gs : Nat) (unpacked : Bytes)
    (buffer : ReorderBuffer) :
    (∀ p, (columnGroup rsB colSum k0 gs unpacked buffer).image p =
      if k0 ≤ p ∧ p < k0 + gs then unpacked (p * rsB)
      else buffer.image p) ∧
    (columnGroup rsB colSum k0 gs unpacked buffer).words colSum =
      columnSum unpacked rsB k0 gs ∧
    (∀ address, address ≠ colSum →
      (columnGroup rsB colSum k0 gs unpacked buffer).words address =
        buffer.words address) := by
  rcases columnElements_spec colSum k0 unpacked
      { buffer with words := Function.update buffer.words colSum 0 } gs
    with ⟨image, words⟩
  refine ⟨image, ?_, ?_⟩
  · refine (Function.update_self _ _ _).trans ?_
    rw [words, if_pos rfl]
    change (Function.update buffer.words colSum 0 colSum + _) * 128 = _
    rw [Function.update_self, zero_add, mul_comm]
    rfl
  · intro address apart
    refine (Function.update_of_ne apart _ _).trans ?_
    rw [words, if_neg apart]
    exact Function.update_of_ne apart _ _

/-- Groups still to come leave the words of earlier groups alone. -/
theorem columnLoop_frame (unpacked : Bytes) (fuel k0 : Nat)
    {colSum address : Nat} (buffer : ReorderBuffer)
    (before : address < colSum) :
    (columnLoop groupSize k rsB unpacked fuel k0 colSum
        buffer).words address = buffer.words address := by
  induction fuel generalizing k0 colSum buffer with
  | zero => rfl
  | succ fuel ih =>
      unfold columnLoop
      split
      · rw [ih _ _ (by omega)]
        exact (columnGroup_spec _ _ _ unpacked buffer).2.2 _ (by omega)
      · rfl

theorem columnLoop_image (unpacked : Bytes) (positive : 0 < groupSize)
    (fuel : Nat) {k0 : Nat} (colSum : Nat) (buffer : ReorderBuffer)
    (enough : k ≤ k0 + fuel) (p : Nat) :
    (columnLoop groupSize k rsB unpacked fuel k0 colSum buffer).image p =
      if k0 ≤ p ∧ p < k then unpacked (p * rsB) else buffer.image p := by
  induction fuel generalizing k0 colSum buffer with
  | zero => exact (if_neg (by omega)).symm
  | succ fuel ih =>
      unfold columnLoop
      by_cases inside : k0 < k
      · rw [if_pos inside, ih _ _ (by omega),
          (columnGroup_spec _ _ _ unpacked buffer).1]
        by_cases live : k0 ≤ p ∧ p < k
        · rw [if_pos live]
          split_ifs
          · rfl
          · rfl
          · omega
        · rw [if_neg live, if_neg (by omega), if_neg (by omega)]
      · rw [if_neg inside, if_neg (by omega)]

theorem columnLoop_words (unpacked : Bytes) (positive : 0 < groupSize)
    (fuel : Nat) {k0 : Nat} (colSum : Nat) (buffer : ReorderBuffer)
    (enough : k ≤ k0 + fuel) {group : Nat}
    (inside : k0 + group * groupSize < k) :
    (columnLoop groupSize k rsB unpacked fuel k0 colSum buffer).words
        (colSum + 4 * group) =
      columnSum unpacked rsB (k0 + group * groupSize)
        (min groupSize (k - (k0 + group * groupSize))) := by
  induction fuel generalizing k0 colSum buffer group with
  | zero => omega
  | succ fuel ih =>
      have below : k0 < k := by omega
      unfold columnLoop
      rw [if_pos below]
      cases group with
      | zero =>
          rw [columnLoop_frame unpacked fuel _ _ (by omega), Nat.mul_zero,
            Nat.add_zero, Nat.zero_mul, Nat.add_zero]
          exact (columnGroup_spec _ _ _ unpacked buffer).2.1
      | succ group =>
          have position : k0 + (group + 1) * groupSize =
              k0 + groupSize + group * groupSize := by ring
          rw [position] at inside ⊢
          rw [← ih (colSum + 4) _ (by omega) inside]
          congr 1
          ring

/-- The tight column holds the column and the sums of its groups. -/
theorem reorderColumn_spec (positive : 0 < groupSize) (unpacked : Bytes)
    (csB : Nat) (buffer : ReorderBuffer) :
    (∀ p, p < k → (reorderColumn groupSize k rsB unpacked buffer).image p =
      unpacked (p * rsB)) ∧
    (∀ group, group * groupSize < k →
      (reorderColumn groupSize k rsB unpacked buffer).words
          (dlpGemmColSumByteOffset k + 4 * group) =
        unitSum unpacked rsB csB k groupSize group 0) := by
  refine ⟨?_, ?_⟩
  · intro p below
    rw [reorderColumn, columnLoop_image unpacked positive k _ buffer
      (Nat.le_add_left k 0), if_pos ⟨Nat.zero_le p, below⟩]
  · intro group below
    have words := @columnLoop_words groupSize k rsB unpacked positive k 0
      (dlpGemmColSumByteOffset k) buffer (Nat.le_add_left k 0) group
      (by omega)
    rw [Nat.zero_add] at words
    rw [reorderColumn, words, unitSum_eq_rows positive below]
    simp only [columnSum, element, Nat.zero_mul, Nat.add_zero]

end Column

/-! ## Both sides settle on one layout -/

section Layout

variable {groupSize n k : Nat}

/-- The alignment of `KC` never decides against the tight column. -/
theorem writesColumn_iff (tableKC : Nat) :
    WritesColumn tableKC groupSize n k ↔ n = 1 ∧ groupSize ∣ k := by
  have aligned := Nat.mod_eq_zero_of_dvd (dvd_alignKc tableKC groupSize)
  rw [WritesColumn, Nat.dvd_iff_mod_eq_zero]
  exact ⟨fun column => ⟨column.1, column.2.1⟩,
    fun column => ⟨column.1, column.2, aligned⟩⟩

theorem normalised_of_le (positive : 0 < groupSize) (le : groupSize ≤ k) :
    normalisedGroupSize groupSize k = groupSize := by
  unfold normalisedGroupSize
  exact if_neg (by omega)

/-- Panels are cut by one `KC` on both sides. -/
theorem symQuantKC_eq_reorderKC {table : DlpGemmBlockSize}
    (panels : ¬ (n = 1 ∧ groupSize ∣ k)) :
    symQuantKC table.KC groupSize n k =
      (reorderBlksz table groupSize k).KC := by
  unfold symQuantKC reorderBlksz
  dsimp only
  by_cases several : groupSize ≠ k
  · rw [if_pos (Or.inr several), if_pos several]
  · have whole : groupSize = k := not_not.mp several
    have wide : n ≠ 1 := fun single => panels ⟨single, whole ▸ dvd_rfl⟩
    rw [if_neg (by simp [wide, whole]), if_neg several]

variable {globalCntx lcntx : DlpGemmCntx} {call : QuantCall}

/-- A reordered single column takes the GEMV branch if its groups divide K. -/
theorem takesGemv_of_column (legal : LegalGroup groupSize call.k)
    (tag : call.mtagB = .reordered) (single : call.n = 1)
    (divides : groupSize ∣ call.k) :
    TakesGemv globalCntx call groupSize := by
  refine ⟨Nat.mod_eq_zero_of_dvd divides, ?_, tag, Or.inr single⟩
  rw [frameKC, normalised_of_le legal.pos legal.le]
  exact Nat.mod_eq_zero_of_dvd
    ((dvd_symQuantKC_iff _ _ _ _).mpr (Or.inl single))

/-- The layout that the frame presumes is the one that the reorder wrote. -/
theorem layout_eq (legal : LegalGroup groupSize call.k)
    (kcPositive : 0 < globalCntx.blksz.KC)
    (tag : call.mtagB = .reordered)
    (prepared : lcntx.blksz =
      (withSymQuantKC globalCntx groupSize call.n call.k).blksz)
    (thread : DlpGemmThrinfo) :
    (dlpGemmRowvarS8s8s32o32SymQuant globalCntx lcntx call groupSize
        thread).layout =
      reorderLayout globalCntx.blksz groupSize call.n call.k := by
  have normalised := normalised_of_le legal.pos legal.le
  have own : lcntx.blksz.NR = globalCntx.blksz.NR ∧
      lcntx.blksz.NC = globalCntx.blksz.NC ∧
      lcntx.blksz.KC = frameKC globalCntx call groupSize := by
    rw [prepared]
    exact ⟨rfl, rfl, rfl⟩
  rcases own with ⟨nr, nc, kc⟩
  unfold dlpGemmRowvarS8s8s32o32SymQuant reorderLayout
  dsimp only
  rw [nr, nc, kc]
  by_cases column : call.n = 1 ∧ groupSize ∣ call.k
  · rw [if_pos ((writesColumn_iff _).mpr column), if_pos column.1,
      if_pos (takesGemv_of_column legal tag column.1 column.2)]
    rfl
  · have block : frameKC globalCntx call groupSize =
        (reorderBlksz globalCntx.blksz groupSize call.k).KC := by
      rw [frameKC, normalised]
      exact symQuantKC_eq_reorderKC column
    rw [if_neg fun writes => column ((writesColumn_iff _).mp writes)]
    by_cases gemv : TakesGemv globalCntx call groupSize
    · have wide : call.n ≠ 1 := fun single =>
        column ⟨single, Nat.dvd_of_mod_eq_zero gemv.1⟩
      have positive : 0 < frameKC globalCntx call groupSize := by
        rw [frameKC, normalised]
        exact symQuantKC_pos legal.pos kcPositive
      rw [if_pos gemv, if_neg wide,
        alignKc_of_dvd positive (Nat.dvd_of_mod_eq_zero gemv.2.1), block]
      rfl
    · rw [if_neg gemv, block]
      rfl

/-- The frame presumes the layout that an accepted call addresses. -/
theorem layout_eq_addressedLayout (run : QuantRun)
    (thread : DlpGemmThrinfo) :
    (dlpGemmRowvarS8s8s32o32SymQuant globalCntx run.lcntx run.call
        run.groupSize thread).layout =
      addressedLayout globalCntx run := by
  unfold dlpGemmRowvarS8s8s32o32SymQuant addressedLayout
  dsimp only
  split
  · split <;> rfl
  · rfl

/-- Over panels the frame steps by the `KC` of the reorder. -/
theorem frameKC_eq_reorderKC
    (legal : GroupLegal globalCntx.blksz groupSize call.k)
    (panels : ¬ (call.n = 1 ∧ groupSize ∣ call.k)) :
    frameKC globalCntx call groupSize =
      (reorderBlksz globalCntx.blksz groupSize call.k).KC := by
  rw [frameKC, normalised_of_le legal.group_pos legal.group_le]
  exact symQuantKC_eq_reorderKC panels

/-- The kernel calls of the frame are those of the five-loop; the GEMV branch
makes none of them. -/
theorem frame_calls
    (legal : GroupLegal globalCntx.blksz groupSize call.k)
    (prepared : lcntx.blksz =
      (withSymQuantKC globalCntx groupSize call.n call.k).blksz)
    (panels : ¬ (call.n = 1 ∧ groupSize ∣ call.k))
    (thread : DlpGemmThrinfo) :
    (dlpGemmRowvarS8s8s32o32SymQuant globalCntx lcntx call groupSize
        thread).calls =
      if TakesGemv globalCntx call groupSize then []
      else
        fiveLoop (reorderBlksz globalCntx.blksz groupSize call.k) groupSize
          call.m call.n call.k thread := by
  unfold dlpGemmRowvarS8s8s32o32SymQuant
  dsimp only
  rw [prepared, frameKC_eq_reorderKC legal panels,
    normalised_of_le legal.group_pos legal.group_le]
  split
  · split <;> rfl
  · rfl

theorem frame_calls_subset
    (legal : GroupLegal globalCntx.blksz groupSize call.k)
    (prepared : lcntx.blksz =
      (withSymQuantKC globalCntx groupSize call.n call.k).blksz)
    (panels : ¬ (call.n = 1 ∧ groupSize ∣ call.k))
    {thread : DlpGemmThrinfo} {kernel : QuantKernelCall}
    (member : kernel ∈ (dlpGemmRowvarS8s8s32o32SymQuant globalCntx lcntx call
      groupSize thread).calls) :
    kernel ∈ fiveLoop (reorderBlksz globalCntx.blksz groupSize call.k)
      groupSize call.m call.n call.k thread := by
  rw [frame_calls legal prepared panels] at member
  split at member
  · cases member
  · exact member

end Layout

/-! ## The tiles and the sums of the five-loop -/

section Addresses

variable {blksz : DlpGemmBlockSize} {groupSize m n k : Nat}

theorem jrLoop_setColSumVec (NR : Nat) (step : JcStep) (row ic : Piece)
    (bUse vec other fuel jr bSumOffset : Nat) :
    jrLoop NR step row ic bUse vec fuel jr bSumOffset =
      (jrLoop NR step row ic bUse other fuel jr bSumOffset).map
        fun call => { call with bColSumVec := vec } := by
  induction fuel generalizing jr bSumOffset with
  | zero => rfl
  | succ fuel ih =>
      unfold jrLoop
      split
      · rw [List.map_cons, ih]
      · rfl

/-- A loop nest that points its calls to other column sums makes the calls of
the plain driver, so pointed. -/
theorem sumsNest_eq_map (sums : Nat → Nat → Nat) (sumLd : Nat)
    (thread : DlpGemmThrinfo) :
    let jcRange := gemmJcRange thread n blksz.NR
    let icRange := gemmIcRange thread m blksz.MR
    ((jcLoop n blksz.NC dlpGetPackbS8s8s32o32MinNR jcRange.2 jcRange.2
        jcRange.1).flatMap fun step =>
      (pcLoop k blksz.KC k 0).flatMap fun row =>
        (pcLoop icRange.2 blksz.MC icRange.2 icRange.1).flatMap fun ic =>
          (jrLoop blksz.NR step row ic
            (step.jcCurLoop * dlpMakeMultipleOfN k 4 +
              step.nSubUpdated * row.start +
              step.jcCurLoopRem * dlpMakeMultipleOfN row.width 4)
            (sums step.jc row.start) step.nc0 0 0).map
              fun call => (⟨call, sumLd⟩ : QuantKernelCall)) =
      (dlpGemmRowvarS8s8s32o32 blksz m n k thread).map fun call =>
        ⟨{ call with bColSumVec := sums call.jc call.pc }, sumLd⟩ := by
  intro jcRange icRange
  unfold dlpGemmRowvarS8s8s32o32
  simp only [List.map_flatMap]
  refine List.flatMap_congr fun step _ => ?_
  refine List.flatMap_congr fun row _ => ?_
  refine List.flatMap_congr fun ic _ => ?_
  rw [jrLoop_setColSumVec blksz.NR step row ic _ _
    (dlpMakeMultipleOfN k 4 * dlpMakeMultipleOfN n 16 + 4 * step.jc),
    List.map_map]
  refine List.map_congr_left fun call plain => ?_
  rcases jrLoop_mem (dvd_zero blksz.NR) plain with ⟨-, -, shape⟩
  have pc : call.pc = row.start := congrArg KernelCall.pc shape
  have jc : call.jc = step.jc := congrArg KernelCall.jc shape
  rw [← pc, ← jc]
  rfl

/-- A call of the plain driver with the column sums of its panel. -/
def panelSumsCall (KC groupSize n k : Nat) (call : KernelCall) :
    QuantKernelCall :=
  ⟨{ call with
      bColSumVec := packBColumnSum n k +
        4 * (sumPanel KC groupSize k call.pc * dlpMakeMultipleOfN n 16 +
          call.jc) },
    dlpMakeMultipleOfN n 16⟩

/-- The five-loop makes the calls of the plain driver, with column sums of the
call's panel. -/
theorem fiveLoop_eq_map (thread : DlpGemmThrinfo) :
    fiveLoop blksz groupSize m n k thread =
      (dlpGemmRowvarS8s8s32o32 blksz m n k thread).map
        (panelSumsCall blksz.KC groupSize n k) := by
  unfold panelSumsCall packBColumnSum
  rw [Nat.mul_comm (dlpMakeMultipleOfN n 16)]
  exact sumsNest_eq_map (fun jc pc =>
    dlpMakeMultipleOfN k 4 * dlpMakeMultipleOfN n 16 +
      4 * (sumPanel blksz.KC groupSize k pc * dlpMakeMultipleOfN n 16 + jc))
    (dlpMakeMultipleOfN n 16) thread

theorem fiveLoop_mem {thread : DlpGemmThrinfo} {kernel : QuantKernelCall}
    (member : kernel ∈ fiveLoop blksz groupSize m n k thread) :
    ∃ call, call ∈ dlpGemmRowvarS8s8s32o32 blksz m n k thread ∧
      panelSumsCall blksz.KC groupSize n k call = kernel := by
  rw [fiveLoop_eq_map] at member
  exact List.mem_map.mp member

/-- The calls of the five-loop cover the rows and columns of their thread over
the whole depth. -/
theorem fiveLoop_covers_iff (panels : 0 < blksz.NR) (columns : 0 < blksz.NC)
    (depth : 0 < blksz.KC) (rows : 0 < blksz.MC) (thread : DlpGemmThrinfo)
    {i j p : Nat} :
    (∃ kernel, kernel ∈ fiveLoop blksz groupSize m n k thread ∧
        kernel.call.Covers i j p) ↔
      InRange (gemmIcRange thread m blksz.MR) i ∧
        InRange (gemmJcRange thread n blksz.NR) j ∧ p < k := by
  rw [← rowvar_covers_iff panels columns depth rows thread, fiveLoop_eq_map]
  constructor
  · rintro ⟨_, member, covers⟩
    rcases List.mem_map.mp member with ⟨call, plain, rfl⟩
    exact ⟨call, plain, covers⟩
  · rintro ⟨call, plain, covers⟩
    exact ⟨_, List.mem_map_of_mem plain, covers⟩

/-- A call addresses the elements of its strip at their slots. -/
theorem strip_eq_slotOf {legal : S8Legal blksz} {call : KernelCall}
    {tile : Tile} (origin : FromTile blksz legal n k call tile)
    {chunk : DlpReorderChunk}
    (visited : chunk ∈ panelChunks call.nr0 blksz.NR 16
      (dlpMakeMultipleOfN call.kc0 4)) {kr i : Nat}
    (row : kr < call.kc0) (inside : i < chunk.cols) :
    call.bAddress + chunk.offset +
        dlpReorderElemOffset kr i chunk.slot 4 =
      slotOf legal.blocks n k (call.pc + kr)
        (call.jc + call.jr + chunk.colStart + i) := by
  have strip := origin.placed.strip origin.jr_dvd origin.jr_lt
  have stripVisited : chunk ∈ panelChunks
      (call.jr + min (tile.nc0 - call.jr) blksz.NR - call.jr) blksz.NR 16
      (dlpMakeMultipleOfN tile.kc0 4) := by
    rw [Nat.add_sub_cancel_left, ← origin.nr0, ← origin.kc0]
    exact visited
  have slot := chunk_eq_slotOf strip stripVisited (origin.kc0 ▸ row) inside
  rw [origin.bAddress, origin.pc, origin.jc]
  exact slot

end Addresses

section Reads

variable {table : DlpGemmBlockSize} {groupSize m n k rsB csB : Nat}

theorem groupLegal_of_accepted (legal : S8Legal table) (depth : 1 ≤ k)
    (group : groupSize = k ∨
      (0 < groupSize ∧ groupSize < k ∧ 4 ∣ groupSize)) :
    GroupLegal table groupSize k := by
  rcases group with rfl | ⟨positive, below, divides⟩
  · exact ⟨legal, depth, le_rfl, Or.inl rfl⟩
  · exact ⟨legal, positive, below.le, Or.inr divides⟩

/-- The vectors of column sums are the units of rows. -/
theorem sumVectors_eq (legal : GroupLegal table groupSize k) (KC : Nat) :
    dlpGemmSymQuantSumVectors KC groupSize k =
      (k + sumUnit KC groupSize k - 1) / sumUnit KC groupSize k := by
  have positive := legal.group_pos.trans_le legal.group_le
  unfold dlpGemmSymQuantSumVectors sumUnit
  dsimp only
  rw [normalised_of_le legal.group_pos legal.group_le]
  by_cases single : groupSize = k
  · rw [if_pos ⟨positive, single⟩, if_pos single]
  · rw [if_neg fun both => single both.2, if_neg single]

theorem sumUnit_pos (legal : GroupLegal table groupSize k) :
    0 < sumUnit (reorderBlksz table groupSize k).KC groupSize k := by
  unfold sumUnit
  split
  · exact legal.blksz.KC_pos
  · exact legal.group_pos

/-- A unit that holds a row has a vector. -/
theorem unit_lt_vectors {unit p : Nat} (positive : 0 < unit)
    (below : p < k) : p / unit < (k + unit - 1) / unit := by
  have covers := le_roundUp positive k
  unfold roundUp at covers
  exact (Nat.div_lt_iff_lt_mul positive).mpr (below.trans_le covers)

/-- The vector that a kernel reads for a group of its block. -/
theorem vector_lt (legal : GroupLegal table groupSize k) {tile : Tile}
    (placed : tile.Placed legal.blksz.blocks n k) {group : Nat}
    (first : tile.pc / groupSize ≤ group)
    (last : group ≤ (tile.pc + tile.kc0 - 1) / groupSize) :
    sumPanel (reorderBlksz table groupSize k).KC groupSize k tile.pc +
        group <
      dlpGemmSymQuantSumVectors (reorderBlksz table groupSize k).KC
        groupSize k := by
  have inLoop : groupPiece groupSize tile.pc tile.kc0 group ∈
      groupLoop groupSize tile.pc tile.kc0 :=
    List.mem_map_of_mem (List.mem_range'_1.mpr ⟨first, by omega⟩)
  have cut := rowCut_of_mem placed legal.group_pos legal.whole inLoop
  have start := unit_of_row legal placed inLoop
    ⟨le_rfl, Nat.lt_add_of_pos_right cut.nonempty⟩
  have nonempty := cut.nonempty
  have below := cut.end_le.trans (stored_of_placed placed).row_end_le
  rw [sumVectors_eq legal]
  refine start.symm.trans_lt (unit_lt_vectors (sumUnit_pos legal) ?_)
  exact (Nat.lt_add_of_pos_right nonempty).trans_le below

/-- A kernel call reads the tile and the sums that the reorder stored. -/
structure ReadsStored (NR KC groupSize n k rsB csB : Nat)
    (unpacked : Bytes) (result : ReorderBuffer)
    (kernel : QuantKernelCall) : Prop where
  column_lt : kernel.call.jc + kernel.call.jr + kernel.call.nr0 ≤ n
  row_lt : kernel.call.pc + kernel.call.kc0 ≤ k
  tile : ∀ chunk, chunk ∈ panelChunks kernel.call.nr0 NR 16
      (dlpMakeMultipleOfN kernel.call.kc0 4) →
    ∀ kr i, kr < kernel.call.kc0 → i < chunk.cols →
      result.image (kernel.call.bAddress + chunk.offset +
          dlpReorderElemOffset kr i chunk.slot 4) =
        unpacked ((kernel.call.pc + kr) * rsB +
          (kernel.call.jc + kernel.call.jr + chunk.colStart + i) * csB)
  sums : ∀ group i, kernel.call.pc / groupSize ≤ group →
    group ≤ (kernel.call.pc + kernel.call.kc0 - 1) / groupSize →
    i < kernel.call.nr0 →
      result.words (kernel.sumAddress group i) =
        unitSum unpacked rsB csB k (sumUnit KC groupSize k)
          (sumPanel KC groupSize k kernel.call.pc + group)
          (kernel.call.jc + kernel.call.jr + i)

/-- The block of a call of the five-loop lies in the matrix, and the column
sums that it reads have a vector. -/
structure InMatrix (table : DlpGemmBlockSize) (groupSize n k : Nat)
    (kernel : QuantKernelCall) : Prop where
  column_end_le : kernel.call.jc + kernel.call.jr + kernel.call.nr0 ≤ n
  row_end_le : kernel.call.pc + kernel.call.kc0 ≤ k
  sumOffset : kernel.call.bSumOffset = kernel.call.jr
  sumLd : kernel.sumLd = dlpMakeMultipleOfN n 16
  sumVec : kernel.call.bColSumVec = packBColumnSum n k +
    4 * (sumPanel (reorderBlksz table groupSize k).KC groupSize k
      kernel.call.pc * dlpMakeMultipleOfN n 16 + kernel.call.jc)
  vector : ∀ group, kernel.call.pc / groupSize ≤ group →
    group ≤ (kernel.call.pc + kernel.call.kc0 - 1) / groupSize →
      sumPanel (reorderBlksz table groupSize k).KC groupSize k
          kernel.call.pc + group <
        dlpGemmSymQuantSumVectors (reorderBlksz table groupSize k).KC
          groupSize k

theorem fiveLoop_inMatrix (legal : GroupLegal table groupSize k)
    {thread : DlpGemmThrinfo} {kernel : QuantKernelCall}
    (member : kernel ∈ fiveLoop (reorderBlksz table groupSize k) groupSize
      m n k thread) : InMatrix table groupSize n k kernel := by
  rcases fiveLoop_mem member with ⟨call, plain, rfl⟩
  rcases exists_fromTile legal.blksz thread plain with ⟨tile, origin⟩
  refine ⟨?_, ?_, origin.bSumOffset, rfl, rfl, ?_⟩
  · have fits := origin.placed.column_end_le
    have inside := origin.jr_lt
    change call.jc + call.jr + call.nr0 ≤ n
    rw [origin.nr0, origin.jc]
    omega
  · change call.pc + call.kc0 ≤ k
    rw [origin.pc, origin.kc0]
    exact (stored_of_placed origin.placed).row_end_le
  · intro group first last
    change call.pc / groupSize ≤ group at first
    change group ≤ (call.pc + call.kc0 - 1) / groupSize at last
    change sumPanel _ groupSize k call.pc + group < _
    rw [origin.pc] at first ⊢
    rw [origin.pc, origin.kc0] at last
    exact vector_lt legal origin.placed first last

/-- The word from which a call reads a column sum. -/
theorem InMatrix.sumAddress_eq {kernel : QuantKernelCall}
    (inMatrix : InMatrix table groupSize n k kernel) (group i : Nat) :
    kernel.sumAddress group i = packBColumnSum n k +
      4 * ((sumPanel (reorderBlksz table groupSize k).KC groupSize k
            kernel.call.pc + group) * dlpMakeMultipleOfN n 16 +
        (kernel.call.jc + kernel.call.jr + i)) := by
  rw [QuantKernelCall.sumAddress, inMatrix.sumVec, inMatrix.sumOffset,
    inMatrix.sumLd]
  ring

/-- Every call of the five-loop reads what the reorder stored. -/
theorem fiveLoop_readsStored (legal : GroupLegal table groupSize k)
    {numThreads : Int}
    (schedule : PackSchedule table groupSize n k (reorderThreads numThreads))
    (unpacked : Bytes) (buffer : ReorderBuffer) {thread : DlpGemmThrinfo}
    {kernel : QuantKernelCall}
    (member : kernel ∈ fiveLoop (reorderBlksz table groupSize k) groupSize
      m n k thread) :
    ReadsStored table.NR (reorderBlksz table groupSize k).KC groupSize n k
      rsB csB unpacked
      (dlpReorderbNr64S8s8s32o32SymQuant rsB csB schedule unpacked buffer)
      kernel := by
  have inMatrix := fiveLoop_inMatrix legal member
  have columnEnd := inMatrix.column_end_le
  have rowEnd := inMatrix.row_end_le
  have padded : n ≤ dlpMakeMultipleOfN n 16 := le_roundUp (Nat.succ_pos 15) n
  refine ⟨columnEnd, rowEnd, ?_, ?_⟩
  · rcases fiveLoop_mem member with ⟨call, plain, rfl⟩
    rcases exists_fromTile legal.blksz thread plain with ⟨tile, origin⟩
    intro chunk visited kr i row inside
    have isChunk :=
      panelChunks_isChunk legal.blksz.blocks.widths visited
    have fits : chunk.colStart + chunk.cols ≤ call.nr0 := isChunk.inside
    unfold panelSumsCall at row columnEnd rowEnd ⊢
    dsimp only at row columnEnd rowEnd ⊢
    rw [strip_eq_slotOf origin visited row inside]
    exact symQuantImage_at_slot legal schedule unpacked buffer (by omega)
      (by omega)
  · intro group i first last inside
    rw [inMatrix.sumAddress_eq, symQuantWords_at_sum legal schedule unpacked
      buffer (inMatrix.vector group first last) (by omega),
      if_pos (by omega)]

/-- With several groups no group crosses a block of the reorder. -/
theorem group_in_block (several : groupSize ≠ k) {p q : Nat}
    (same : p / groupSize = q / groupSize) :
    p / (reorderBlksz table groupSize k).KC =
      q / (reorderBlksz table groupSize k).KC := by
  rcases group_dvd_KC several with ⟨groups, block⟩
  rw [block, ← Nat.div_div_eq_div_mul, ← Nat.div_div_eq_div_mul, same]

end Reads

/-! ## Agreement -/

/--
The reorder and the frame agree on a reordered B for every group size, team
and thread.  A single column whose groups divide K is written and read
tightly.  Otherwise both sides cut panels by one `KC`, every kernel call of
the five-loop reads its tile and its column sums where the reorder stored
them, and each stored sum covers its column over its group, or over its block
when there is a single group; outside the GEMV branch the kernel calls cover
the rows and columns of their thread over the whole depth, and nothing else.
With several groups no group crosses a block.
-/
theorem symQuant_reordered_agrees {globalCntx lcntx : DlpGemmCntx}
    {call : QuantCall} {groupSize : Nat} (depth : 1 ≤ call.k)
    (group : groupSize = call.k ∨
      (0 < groupSize ∧ groupSize < call.k ∧ 4 ∣ groupSize))
    (legal : S8Legal globalCntx.blksz) (tag : call.mtagB = .reordered)
    (prepared : lcntx.blksz =
      (withSymQuantKC globalCntx groupSize call.n call.k).blksz)
    (rsB csB : Nat) {numThreads : Int}
    (schedule : PackSchedule globalCntx.blksz groupSize call.n call.k
      (reorderThreads numThreads))
    (unpacked : Bytes) (buffer : ReorderBuffer) (thread : DlpGemmThrinfo) :
    let KC := (reorderBlksz globalCntx.blksz groupSize call.k).KC
    let result := reorderSymQuant rsB csB schedule unpacked buffer
    let frame := dlpGemmRowvarS8s8s32o32SymQuant globalCntx lcntx call
      groupSize thread
    (call.n = 1 ∧ groupSize ∣ call.k →
      result = reorderColumn groupSize call.k rsB unpacked buffer ∧
      frame = .column 0 (dlpGemmColSumByteOffset call.k) ∧
      (∀ p, p < call.k → result.image (0 + p) = unpacked (p * rsB)) ∧
      (∀ g, g * groupSize < call.k →
        result.words (dlpGemmColSumByteOffset call.k + 4 * g) =
          unitSum unpacked rsB csB call.k groupSize g 0)) ∧
    (¬ (call.n = 1 ∧ groupSize ∣ call.k) →
      result =
        dlpReorderbNr64S8s8s32o32SymQuant rsB csB schedule unpacked
          buffer ∧
      frame.layout =
        .panels globalCntx.blksz.NR globalCntx.blksz.NC KC ∧
      (∀ kernel, kernel ∈ frame.calls →
        ReadsStored globalCntx.blksz.NR KC groupSize call.n call.k rsB csB
          unpacked result kernel) ∧
      (∀ v j, v < dlpGemmSymQuantSumVectors KC groupSize call.k →
        j < call.n →
        result.words (packBColumnSum call.n call.k +
            4 * (v * dlpMakeMultipleOfN call.n 16 + j)) =
          unitSum unpacked rsB csB call.k (sumUnit KC groupSize call.k) v
            j) ∧
      (¬ TakesGemv globalCntx call groupSize → 0 < globalCntx.blksz.MC →
        ∀ i j p,
          (∃ kernel, kernel ∈ frame.calls ∧ kernel.call.Covers i j p) ↔
            InRange (gemmIcRange thread call.m globalCntx.blksz.MR) i ∧
              InRange (gemmJcRange thread call.n globalCntx.blksz.NR) j ∧
              p < call.k)) ∧
    (groupSize ≠ call.k →
      ∀ p q, p / groupSize = q / groupSize → p / KC = q / KC) := by
  have groupLegal := groupLegal_of_accepted legal depth group
  have sizes : LegalGroup groupSize call.k :=
    ⟨groupLegal.group_pos, groupLegal.group_le, groupLegal.whole_or_dvd⟩
  have layout := layout_eq sizes legal.KC_pos tag prepared thread
  intro KC result frame
  refine ⟨?_, ?_, fun several p q same => group_in_block several same⟩
  · rintro ⟨single, divides⟩
    have tight : result =
        reorderColumn groupSize call.k rsB unpacked buffer :=
      if_pos ((writesColumn_iff _).mpr ⟨single, divides⟩)
    rcases reorderColumn_spec groupLegal.group_pos unpacked csB buffer with
      ⟨image, words⟩
    refine ⟨tight, ?_, ?_, ?_⟩
    · change dlpGemmRowvarS8s8s32o32SymQuant _ _ _ _ _ = _
      unfold dlpGemmRowvarS8s8s32o32SymQuant
      dsimp only
      rw [if_pos (takesGemv_of_column sizes tag single divides),
        if_pos single]
    · intro p below
      rw [tight, Nat.zero_add]
      exact image p below
    · intro g below
      rw [tight]
      exact words g below
  · intro panels
    have packed : result = dlpReorderbNr64S8s8s32o32SymQuant rsB csB
        schedule unpacked buffer :=
      if_neg fun writes => panels ((writesColumn_iff _).mp writes)
    refine ⟨packed, ?_, ?_, ?_, ?_⟩
    · rw [layout, reorderLayout,
        if_neg fun writes => panels ((writesColumn_iff _).mp writes)]
    · intro kernel member
      rw [packed]
      exact fiveLoop_readsStored groupLegal schedule unpacked buffer
        (frame_calls_subset groupLegal prepared panels member)
    · intro v j vector column
      have padded : call.n ≤ dlpMakeMultipleOfN call.n 16 :=
        le_roundUp (Nat.succ_pos 15) call.n
      rw [packed, symQuantWords_at_sum groupLegal schedule unpacked buffer
        vector (column.trans_le padded), if_pos column]
    · intro apart rows i j p
      have blocks := groupLegal.blksz
      rw [show frame.calls = _ from
        frame_calls groupLegal prepared panels thread, if_neg apart]
      exact fiveLoop_covers_iff blocks.NR_pos blocks.NC_pos blocks.KC_pos
        rows thread

/-- A context with a narrow blocking. -/
def narrowCntx : DlpGemmCntx where
  blksz := narrowBlksz
  supThres := ⟨0, 0, 0⟩
  blkszSetMask := ⟨false, false, false, false, false⟩
  gemmKernelHints := ⟨0, 0⟩
  threadInfo := ⟨0, 0, 0⟩
  hasKernel := false
  hasPackBKernel := false

/-- Eleven rows in groups of four, and forty columns. -/
def narrowCall : QuantCall :=
  ⟨2, 40, 11, .unpacked, .reordered, 1, 0, 4, .f32⟩

/-- The sum of the short last group of a fringe column, under a team of
three. -/
theorem symQuant_reordered_agrees_narrow :
    (reorderSymQuant 40 1
        (PackSchedule.inOrder narrowCntx.blksz 4 narrowCall.n narrowCall.k
          (reorderThreads 3))
        (fun address => UInt8.ofNat address)
        ⟨fun _ => 7, fun _ => 9⟩).words
      (packBColumnSum narrowCall.n narrowCall.k +
        4 * (2 * dlpMakeMultipleOfN narrowCall.n 16 + 33)) =
    unitSum (fun address => UInt8.ofNat address) 40 1 11 4 2 33 :=
  ((symQuant_reordered_agrees (by decide)
    (Or.inr ⟨by decide, by decide, by decide⟩)
    ⟨by decide, by decide, by decide, by decide, by decide, by decide⟩ rfl
    rfl 40 1
    (PackSchedule.inOrder narrowCntx.blksz 4 narrowCall.n narrowCall.k
      (reorderThreads 3))
    (fun address => UInt8.ofNat address) ⟨fun _ => 7, fun _ => 9⟩
    ⟨2, 1, 1, 2⟩).2.1 (by decide)).2.2.2.1 2 33 (by decide) (by decide)

end AoclDlp.Quant.ReorderedFrame
