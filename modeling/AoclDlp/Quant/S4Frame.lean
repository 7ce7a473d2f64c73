import AoclDlp.Quant.ReorderedFrame
import AoclDlp.Quant.S4Reorder

/-!
# The portable int4 reorder and the int4 frame

Builds without the fused packers widen all of B, run the int8 sym-quant
reorder and compress its image; the frame of the GEMM widens the panels of
either buffer back to int8.  Offsets are computed as if the weights were int8
and halved, so every one of them has to be even.
-/

namespace AoclDlp.Quant.S4Frame

open AoclDlp.Config.BlockSize
open AoclDlp.Config.LocalContext
open AoclDlp.Foundations.Interleaving
open AoclDlp.Foundations.Memory
open AoclDlp.Foundations.Rounding
open AoclDlp.Layout.GroupTiles
open AoclDlp.Layout.Nibbles
open AoclDlp.Layout.Panel
open AoclDlp.Layout.ReorderRef
open AoclDlp.Layout.S8s8s32
open AoclDlp.Layout.TeamTiles
open AoclDlp.Quant.GroupReorder
open AoclDlp.Quant.GroupSize
open AoclDlp.Quant.KernelInit
open AoclDlp.Quant.ReorderedFrame
open AoclDlp.Quant.S4Reorder
open AoclDlp.Quant.SymQuant
open AoclDlp.Threading.TaskRange
open AoclDlp.Threading.WorkPartition

/-! ## The portable reorder -/

/-- The copy of the column sums behind the compact weights. -/
def copyWords (dst src count : Nat) (source target : Nat → BitVec 32) :
    Nat → BitVec 32 :=
  (List.range count).foldl
    (fun current idx =>
      Function.update current (dst + 4 * idx) (source (src + 4 * idx)))
    target

/-- The portable `dlp_reorderb_nr64_s8s4s32o32`. -/
def portableReorderb {table : DlpGemmBlockSize} {groupSize n k : Nat}
    {numThreads : Int} (rsB csB : Nat)
    (schedule : PackSchedule table groupSize n k (reorderThreads numThreads))
    (b bS8 : Bytes) (s8Reorder buffer : ReorderBuffer) : ReorderBuffer :=
  let nUpdated := dlpMakeMultipleOfN n 16
  let s8WeightBytes := dlpMakeMultipleOfN k 4 * nUpdated
  let packed := dlpReorderbNr64S8s8s32o32SymQuant n 1 schedule
    (dlpCvtS4ToS8Matrix b k n rsB csB bS8) s8Reorder
  { image := dlpCvtS8ToS4Linear 0 0 packed.image s8WeightBytes buffer.image
    words := copyWords (s8WeightBytes / 2) (packBColumnSum n k)
      (dlpGemmSymQuantSumVectors table.KC groupSize k * nUpdated)
      packed.words buffer.words }

/-! ## The frame -/

/-- The five-loop of `dlp_gemm_rowvar_s8s4s32o32` on a reordered B; the
addresses of the weights count elements. -/
def nibbleFiveLoop (blksz : DlpGemmBlockSize) (groupSize m n k : Nat)
    (thread : DlpGemmThrinfo) : List QuantKernelCall :=
  let kUpdated := dlpMakeMultipleOfN k 4
  let nUpdated := dlpMakeMultipleOfN n 16
  let jcRange := gemmJcRange thread n blksz.NR
  let icRange := gemmIcRange thread m blksz.MR
  (jcLoop n blksz.NC dlpGetPackbS8s8s32o32MinNR jcRange.2 jcRange.2
      jcRange.1).flatMap fun step =>
    (pcLoop k blksz.KC k 0).flatMap fun row =>
      let kc0Updated := dlpMakeMultipleOfN row.width 4
      let bS8PcBase := step.jcCurLoop * kUpdated +
        step.nSubUpdated * row.start + step.jcCurLoopRem * kc0Updated
      let bColSumVec := compactWeightBytes n k +
        4 * (sumPanel blksz.KC groupSize k row.start * nUpdated + step.jc)
      (pcLoop icRange.2 blksz.MC icRange.2 icRange.1).flatMap fun ic =>
        (jrLoop blksz.NR step row ic bS8PcBase bColSumVec step.nc0 0 0).map
          fun call => ⟨call, nUpdated⟩

/-- The kernel calls of `dlp_gemm_rowvar_s8s4s32o32` on a reordered B; the
GEMV driver makes none of them. -/
def dlpGemmRowvarS8s4s32o32 (globalCntx lcntx : DlpGemmCntx)
    (call : QuantCall) (groupSize : Nat) (thread : DlpGemmThrinfo) :
    List QuantKernelCall :=
  if 0 < groupSize ∧ TakesGemv globalCntx call groupSize then []
  else
    nibbleFiveLoop
      { lcntx.blksz with KC := frameKC globalCntx call groupSize } groupSize
      call.m call.n call.k thread

/-- A call of the int8 frame with its column sums behind the compact
weights. -/
def compactSumsCall (KC groupSize n k : Nat) (kernel : QuantKernelCall) :
    QuantKernelCall :=
  { kernel with
    call := { kernel.call with
      bColSumVec := compactWeightBytes n k +
        4 * (sumPanel KC groupSize k kernel.call.pc *
          dlpMakeMultipleOfN n 16 + kernel.call.jc) } }

/-- Elements that a kernel call widens. -/
def widenElems (call : KernelCall) : Nat :=
  dlpMakeMultipleOfN call.nr0 16 * dlpMakeMultipleOfN call.kc0 4

/-- The panel that a kernel call widens into the thread's scratch. -/
def widenPanel (NR : Nat) (weights : Bytes) (call : KernelCall)
    (scratch : Bytes) : Bytes :=
  let panelElems := NR * dlpMakeMultipleOfN call.kc0 4
  dlpCvtS4ToS8Linear (call.bAddress / 2) weights (widenElems call)
    (if widenElems call < panelElems then
      fill (widenElems call) (panelElems - widenElems call) 0 scratch
    else scratch)

/-! ## The image of the widened matrix -/

section Wide

variable {table : DlpGemmBlockSize} {groupSize n k rsB csB : Nat}
    {numThreads : Int}

/-- The packers walk a row- or column-major matrix by its own strides. -/
theorem packerRs_eq (strides : rsB = 1 ∨ csB = 1) :
    packerRs rsB csB = rsB := by
  unfold packerRs
  split
  · rfl
  next apart => exact (strides.resolve_right apart).symm

/-- The widened matrix, by rows and columns. -/
theorem wide_eq (strides : rsB = 1 ∨ csB = 1) (b bS8 : Bytes) {p j : Nat}
    (row : p < k) (column : j < n) :
    dlpCvtS4ToS8Matrix b k n rsB csB bS8 (p * n + j * 1) =
      nibbleAt b (p * packerRs rsB csB + j * csB) := by
  rw [Nat.mul_one, dlpCvtS4ToS8Matrix_apply b rsB csB row column,
    packerRs_eq strides, Nat.mul_comm rsB, Nat.mul_comm csB]

/-- The int8 reorder packs the nibbles of B. -/
theorem wide_packed (legal : GroupLegal table groupSize k)
    (strides : rsB = 1 ∨ csB = 1)
    (schedule : PackSchedule table groupSize n k (reorderThreads numThreads))
    (b bS8 : Bytes) (s8Reorder : ReorderBuffer) :
    PackedImage legal.blksz.blocks n k
      (fun p j => nibbleAt b (p * packerRs rsB csB + j * csB))
      (dlpReorderbNr64S8s8s32o32SymQuant n 1 schedule
        (dlpCvtS4ToS8Matrix b k n rsB csB bS8) s8Reorder).image where
  at_slot := by
    intro p j row column
    rw [symQuantImage_at_slot legal schedule _ s8Reorder row column]
    exact wide_eq strides b bS8 row column
  padding := fun _ below padding =>
    symQuantImage_padding legal schedule _ s8Reorder below padding

/-- The sums of the widened matrix are the sums of the nibbles. -/
theorem wide_unitSum (strides : rsB = 1 ∨ csB = 1) (b bS8 : Bytes)
    (unit v : Nat) {j : Nat} (column : j < n) :
    unitSum (dlpCvtS4ToS8Matrix b k n rsB csB bS8) n 1 k unit v j =
      unitSum (nibbleAt b) (packerRs rsB csB) csB k unit v j := by
  unfold unitSum
  congr 2
  apply List.map_congr_left
  intro p member
  have row : p < k := List.mem_range.mp (List.mem_of_mem_filter member)
  exact congrArg widen (wide_eq strides b bS8 row column)

/-- The table's `KC` counts the vectors like the aligned one. -/
theorem sumVectors_table (legal : GroupLegal table groupSize k) :
    dlpGemmSymQuantSumVectors (reorderBlksz table groupSize k).KC groupSize
        k =
      dlpGemmSymQuantSumVectors table.KC groupSize k := by
  rw [sumVectors_eq legal, sumVectors_eq legal]
  unfold sumUnit reorderBlksz
  dsimp only
  by_cases single : groupSize = k
  · rw [if_neg (not_not.mpr single)]
  · rw [if_neg single, if_neg single]

theorem copyWords_apply {dst src count idx : Nat} (below : idx < count)
    (source target : Nat → BitVec 32) :
    copyWords dst src count source target (dst + 4 * idx) =
      source (src + 4 * idx) := by
  have distinct : Function.Injective fun i => dst + 4 * i := by
    intro left right same
    dsimp only at same
    omega
  exact foldl_update_range distinct (fun i => source (src + 4 * i)) target
    below

/-- The int8 image has two elements for every compact byte. -/
theorem image_eq_two_mul (n k : Nat) :
    dlpMakeMultipleOfN k 4 * dlpMakeMultipleOfN n 16 =
      2 * compactWeightBytes n k := by
  have four : 4 ∣ dlpMakeMultipleOfN k 4 := dvd_roundUp k 4
  have even : 2 ∣ dlpMakeMultipleOfN k 4 * dlpMakeMultipleOfN n 16 :=
    ((show 2 ∣ 4 by decide).trans four).mul_right _
  exact (Nat.mul_div_cancel' even).symm

/-- The portable reorder compresses the int8 image. -/
theorem portable_weights
    (schedule : PackSchedule table groupSize n k (reorderThreads numThreads))
    (b bS8 : Bytes) (s8Reorder buffer : ReorderBuffer) {a : Nat}
    (below : a < compactWeightBytes n k) :
    (portableReorderb rsB csB schedule b bS8 s8Reorder buffer).image a =
      nibblePair
        ((dlpReorderbNr64S8s8s32o32SymQuant n 1 schedule
          (dlpCvtS4ToS8Matrix b k n rsB csB bS8) s8Reorder).image (2 * a))
        ((dlpReorderbNr64S8s8s32o32SymQuant n 1 schedule
          (dlpCvtS4ToS8Matrix b k n rsB csB bS8) s8Reorder).image
            (2 * a + 1)) := by
  unfold portableReorderb
  dsimp only
  rw [image_eq_two_mul, dlpCvtS8ToS4Linear_apply,
    if_pos ⟨Nat.zero_le a, by omega⟩, Nat.sub_zero, Nat.zero_add,
    Nat.zero_add]

/-- The fused sums are the sums of the int8 reorder. -/
theorem fused_words_eq (legal : GroupLegal table groupSize k)
    (strides : rsB = 1 ∨ csB = 1)
    (interleaved : Interleaved StripOp.workId
      (teamOps table groupSize n k (reorderThreads numThreads)))
    (schedule : PackSchedule table groupSize n k (reorderThreads numThreads))
    (b pool bS8 : Bytes) (buffer s8Reorder : ReorderBuffer) {v j : Nat}
    (vector : v < dlpGemmSymQuantSumVectors
      (reorderBlksz table groupSize k).KC groupSize k)
    (column : j < dlpMakeMultipleOfN n 16) :
    (dlpReorderbNr64S8s4s32o32 rsB csB interleaved b pool buffer).words
        (compactWeightBytes n k + 4 * (v * dlpMakeMultipleOfN n 16 + j)) =
      (dlpReorderbNr64S8s8s32o32SymQuant n 1 schedule
        (dlpCvtS4ToS8Matrix b k n rsB csB bS8) s8Reorder).words
        (packBColumnSum n k + 4 * (v * dlpMakeMultipleOfN n 16 + j)) := by
  rw [fused_words legal interleaved b pool buffer vector column,
    symQuantWords_at_sum legal schedule _ s8Reorder vector column]
  by_cases live : j < n
  · rw [if_pos live, if_pos live, wide_unitSum strides b bS8 _ _ live]
  · rw [if_neg live, if_neg live]

/-- The portable sums are the sums of the int8 reorder. -/
theorem portable_words (legal : GroupLegal table groupSize k)
    (schedule : PackSchedule table groupSize n k (reorderThreads numThreads))
    (b bS8 : Bytes) (s8Reorder buffer : ReorderBuffer) {v j : Nat}
    (vector : v < dlpGemmSymQuantSumVectors
      (reorderBlksz table groupSize k).KC groupSize k)
    (column : j < dlpMakeMultipleOfN n 16) :
    (portableReorderb rsB csB schedule b bS8 s8Reorder buffer).words
        (compactWeightBytes n k + 4 * (v * dlpMakeMultipleOfN n 16 + j)) =
      (dlpReorderbNr64S8s8s32o32SymQuant n 1 schedule
        (dlpCvtS4ToS8Matrix b k n rsB csB bS8) s8Reorder).words
        (packBColumnSum n k + 4 * (v * dlpMakeMultipleOfN n 16 + j)) := by
  rw [sumVectors_table legal] at vector
  exact copyWords_apply (sumCell_lt vector column) _ _

end Wide

/-! ## The panels of the frame -/

section Panels

variable {table : DlpGemmBlockSize} {groupSize m n k rsB csB : Nat}

/-- The int4 five-loop makes the calls of the int8 five-loop, with column sums
behind the compact weights. -/
theorem nibbleFiveLoop_eq_map (blksz : DlpGemmBlockSize)
    (thread : DlpGemmThrinfo) :
    nibbleFiveLoop blksz groupSize m n k thread =
      (fiveLoop blksz groupSize m n k thread).map
        (compactSumsCall blksz.KC groupSize n k) := by
  rw [fiveLoop_eq_map, List.map_map]
  exact sumsNest_eq_map (fun jc pc => compactWeightBytes n k +
    4 * (sumPanel blksz.KC groupSize k pc * dlpMakeMultipleOfN n 16 + jc))
    (dlpMakeMultipleOfN n 16) thread

/-- The panel of a kernel call starts at a whole byte and lies in the image. -/
theorem panel_inside {blksz : DlpGemmBlockSize} (legal : S8Legal blksz)
    {thread : DlpGemmThrinfo} {kernel : QuantKernelCall}
    (member : kernel ∈ fiveLoop blksz groupSize m n k thread) :
    2 ∣ kernel.call.bAddress ∧
      ∀ i, i < widenElems kernel.call →
        kernel.call.bAddress + i <
          roundUp n 16 * roundUp k 4 := by
  rcases fiveLoop_mem member with ⟨call, plain, rfl⟩
  rcases exists_fromTile legal thread plain with ⟨tile, origin⟩
  have strip := origin.placed.strip origin.jr_dvd origin.jr_lt
  have start : 4 ∣ call.bAddress := by
    rw [origin.bAddress]
    exact kFactor_dvd_off strip
  refine ⟨(show 2 ∣ 4 by decide).trans start, ?_⟩
  intro i inside
  change i < dlpMakeMultipleOfN call.nr0 16 *
    dlpMakeMultipleOfN call.kc0 4 at inside
  rw [origin.nr0, origin.kc0] at inside
  change call.bAddress + i < _
  rw [origin.bAddress]
  refine region_lt strip ((region_add_iff blksz _ i).mpr ?_)
  change i < dlpMakeMultipleOfN
    (call.jr + min (tile.nc0 - call.jr) blksz.NR - call.jr) 16 *
      dlpMakeMultipleOfN tile.kc0 4
  rw [Nat.add_sub_cancel_left]
  exact inside

/-- A kernel call widens the panel that the int8 path reads. -/
theorem widenPanel_eq (legal : GroupLegal table groupSize k)
    {value : Nat → Nat → UInt8} {image weights : Bytes}
    (packed : PackedImage legal.blksz.blocks n k value image)
    (nibbles : ∀ p j, IsS4 (value p j))
    (paired : ∀ a, a < compactWeightBytes n k →
      weights a = nibblePair (image (2 * a)) (image (2 * a + 1)))
    {thread : DlpGemmThrinfo} {kernel : QuantKernelCall}
    (member : kernel ∈ fiveLoop (reorderBlksz table groupSize k) groupSize m
      n k thread) (NR : Nat) (scratch : Bytes) {i : Nat}
    (inside : i < widenElems kernel.call) :
    widenPanel NR weights kernel.call scratch i =
      image (kernel.call.bAddress + i) := by
  have twice : roundUp n 16 * roundUp k 4 = 2 * compactWeightBytes n k := by
    rw [← image_eq_two_mul, Nat.mul_comm]
    rfl
  rcases panel_inside legal.blksz member with ⟨⟨first, start⟩, bounded⟩
  have below := bounded i inside
  rw [twice, start] at below
  unfold widenPanel
  rw [start, Nat.mul_div_cancel_left first (by decide)]
  refine widen_pairs paired ?_ below inside _
  intro slot inImage
  rw [← twice] at inImage
  exact packed.of_cells isS4_zero (fun p j _ _ => nibbles p j) inImage

end Panels

/-! ## Agreement -/

/--
The fused and the portable reorder leave the same weights and the same column
sums, for every team, interleaving and schedule.  The kernel calls of the int4
frame are those of the int8 frame with column sums behind the compact weights;
each widens the panel and reads the column sums that the int8 call reads from
the int8 reorder of the widened matrix.
-/
theorem s8s4_fused_agrees {globalCntx lcntx : DlpGemmCntx}
    {call : QuantCall} {groupSize : Nat} (depth : 1 ≤ call.k)
    (group : groupSize = call.k ∨
      (0 < groupSize ∧ groupSize < call.k ∧ 4 ∣ groupSize))
    (panels : ¬ (call.n = 1 ∧ groupSize ∣ call.k))
    (legal : S8Legal globalCntx.blksz)
    (prepared : lcntx.blksz =
      (withSymQuantKC globalCntx groupSize call.n call.k).blksz)
    {rsB csB : Nat} (strides : rsB = 1 ∨ csB = 1) {numThreads : Int}
    (interleaved : Interleaved StripOp.workId
      (teamOps globalCntx.blksz groupSize call.n call.k
        (reorderThreads numThreads)))
    (schedule : PackSchedule globalCntx.blksz groupSize call.n call.k
      (reorderThreads numThreads))
    (b pool bS8 : Bytes) (buffer other s8Reorder : ReorderBuffer) :
    let KC := (reorderBlksz globalCntx.blksz groupSize call.k).KC
    let nUpdated := dlpMakeMultipleOfN call.n 16
    let fused := dlpReorderbNr64S8s4s32o32 rsB csB interleaved b pool buffer
    let portable := portableReorderb rsB csB schedule b bS8 s8Reorder other
    let s8 := dlpReorderbNr64S8s8s32o32SymQuant call.n 1 schedule
      (dlpCvtS4ToS8Matrix b call.k call.n rsB csB bS8) s8Reorder
    (∀ a, a < compactWeightBytes call.n call.k →
      fused.image a = portable.image a) ∧
    (∀ v j, v < dlpGemmSymQuantSumVectors KC groupSize call.k →
      j < nUpdated →
        fused.words (compactWeightBytes call.n call.k +
            4 * (v * nUpdated + j)) =
          portable.words (compactWeightBytes call.n call.k +
            4 * (v * nUpdated + j))) ∧
    ∀ thread,
      let s8Calls := (dlpGemmRowvarS8s8s32o32SymQuant globalCntx lcntx call
        groupSize thread).calls
      dlpGemmRowvarS8s4s32o32 globalCntx lcntx call groupSize thread =
        s8Calls.map (compactSumsCall KC groupSize call.n call.k) ∧
      ∀ s8Kernel, s8Kernel ∈ s8Calls →
        let kernel := compactSumsCall KC groupSize call.n call.k s8Kernel
        (∀ scratch i, i < widenElems kernel.call →
          widenPanel lcntx.blksz.NR fused.image kernel.call scratch i =
            s8.image (s8Kernel.call.bAddress + i)) ∧
        (∀ g i, kernel.call.pc / groupSize ≤ g →
          g ≤ (kernel.call.pc + kernel.call.kc0 - 1) / groupSize →
          i < kernel.call.nr0 →
            fused.words (kernel.sumAddress g i) =
              s8.words (s8Kernel.sumAddress g i)) := by
  have groupLegal := groupLegal_of_accepted legal depth group
  have packed := wide_packed groupLegal strides schedule b bS8 s8Reorder
  intro KC nUpdated fused portable s8
  have paired : ∀ a, a < compactWeightBytes call.n call.k →
      fused.image a = nibblePair (s8.image (2 * a)) (s8.image (2 * a + 1)) :=
    fun a below => fused_weights groupLegal interleaved packed pool buffer
      below
  refine ⟨?_, ?_, ?_⟩
  · intro a below
    rw [paired a below]
    exact (portable_weights schedule b bS8 s8Reorder other below).symm
  · intro v j vector column
    exact (fused_words_eq groupLegal strides interleaved schedule b pool bS8
      buffer s8Reorder vector column).trans
      (portable_words groupLegal schedule b bS8 s8Reorder other vector
        column).symm
  · intro thread s8Calls
    refine ⟨?_, ?_⟩
    · unfold dlpGemmRowvarS8s4s32o32
      rw [show s8Calls = _ from frame_calls groupLegal prepared panels thread,
        frameKC_eq_reorderKC groupLegal panels, prepared]
      by_cases gemv : TakesGemv globalCntx call groupSize
      · rw [if_pos ⟨groupLegal.group_pos, gemv⟩, if_pos gemv]
        rfl
      · rw [if_neg fun both => gemv both.2, if_neg gemv]
        exact nibbleFiveLoop_eq_map _ thread
    · intro s8Kernel member kernel
      have plain := frame_calls_subset groupLegal prepared panels member
      have inMatrix := fiveLoop_inMatrix groupLegal plain
      have columnEnd := inMatrix.column_end_le
      have padded : call.n ≤ nUpdated := le_roundUp (Nat.succ_pos 15) call.n
      refine ⟨?_, ?_⟩
      · intro scratch i inside
        exact widenPanel_eq groupLegal packed (fun p j => isS4_nibble _ _)
          paired plain _ scratch inside
      · intro g i first last inside
        change i < s8Kernel.call.nr0 at inside
        rw [inMatrix.sumAddress_eq, ← fused_words_eq groupLegal strides
          interleaved schedule b pool bS8 buffer s8Reorder
          (inMatrix.vector g first last) (by omega)]
        unfold kernel compactSumsCall QuantKernelCall.sumAddress
        dsimp only
        rw [inMatrix.sumOffset, inMatrix.sumLd]
        congr 1
        ring

/-- A context with a narrow blocking, and its `KC` for groups of four. -/
def narrowLcntx : DlpGemmCntx :=
  withSymQuantKC narrowCntx 4 narrowCall.n narrowCall.k

/-- The compact weights of a fringe strip with a short last group, under a
team of three. -/
theorem s8s4_fused_agrees_narrow :
    (dlpReorderbNr64S8s4s32o32 40 1
      (Interleaved.sequential StripOp.workId
        (teamOps narrowCntx.blksz 4 narrowCall.n narrowCall.k
          (reorderThreads 3)))
      (fun address => UInt8.ofNat address) (fun _ => 5)
      ⟨fun _ => 7, fun _ => 9⟩).image 5 =
    (portableReorderb 40 1
      (PackSchedule.inOrder narrowCntx.blksz 4 narrowCall.n narrowCall.k
        (reorderThreads 3))
      (fun address => UInt8.ofNat address) (fun _ => 6)
      ⟨fun _ => 2, fun _ => 3⟩ ⟨fun _ => 4, fun _ => 1⟩).image 5 :=
  (@s8s4_fused_agrees narrowCntx narrowLcntx narrowCall 4 (by decide)
    (Or.inr ⟨by decide, by decide, by decide⟩) (by decide)
    ⟨by decide, by decide, by decide, by decide, by decide, by decide⟩ rfl
    40 1 (Or.inr rfl) 3
    (Interleaved.sequential StripOp.workId
      (teamOps narrowCntx.blksz 4 narrowCall.n narrowCall.k
        (reorderThreads 3)))
    (PackSchedule.inOrder narrowCntx.blksz 4 narrowCall.n narrowCall.k
      (reorderThreads 3))
    (fun address => UInt8.ofNat address) (fun _ => 5) (fun _ => 6)
    ⟨fun _ => 7, fun _ => 9⟩ ⟨fun _ => 4, fun _ => 1⟩
    ⟨fun _ => 2, fun _ => 3⟩).1 5 (by decide)

end AoclDlp.Quant.S4Frame
