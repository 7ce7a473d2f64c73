import AoclDlp.Jit.PackBKernel
import AoclDlp.Jit.S8Execute

/-!
# The orchestrator of the row-major int8 pack kernels

`jitAmdZenPackBINT8` generates one kernel for each multiple of 16 columns up to
`NR`, the widest with the loop over panels, and a masked one.  `executeKernel`
packs the full panels, then the whole blocks of 16 columns, then the columns
that are left, and moves the pointers of the parameter block in between.
-/

namespace AoclDlp.Jit.PackBExecute

open AoclDlp.Foundations.Assembly
open AoclDlp.Foundations.Avx512
open AoclDlp.Foundations.Lanes
open AoclDlp.Foundations.Regions
open AoclDlp.Foundations.Rounding
open AoclDlp.Jit.PackBGenerator
open AoclDlp.Jit.PackBGenerator.PackBGeneratorParams
open AoclDlp.Jit.PackBKernel
open AoclDlp.Jit.PackBPanel
open AoclDlp.Jit.PackBQuad
open AoclDlp.Jit.PackBSums
open AoclDlp.Jit.S8Execute (mapM_getElem? mapM_isSome_iff)
open AoclDlp.Jit.S8Generator (regBytes)
open AoclDlp.Layout.Chunk

/-! ## The orchestrator -/

/-- `kernelWidth`. -/
def kernelWidth : Nat := regBytes / kFactor

/-- `jitAmdZenPackBINT8`, for the row-major layout. -/
structure JitAmdZenPackBINT8 where
  NR : Nat
  accColSum : Bool
  deriving DecidableEq, Repr

/-- A field of the parameter block is set. -/
def setField (field : PackBParams) (value : BitVec 64) (state : State) :
    State :=
  { state with field := Function.update state.field field value }

/-- `runKernel`. -/
def Calls (kernelCodeBlocks : List Emitted) (index : Nat)
    (before after : State) : Prop :=
  ∃ code, kernelCodeBlocks[index]? = some code ∧
    Runs semantics code before after

namespace JitAmdZenPackBINT8

variable (jit : JitAmdZenPackBINT8)

/-- `numFull`. -/
def numFull : Nat := jit.NR / kernelWidth

/-- The parameters of kernel `ki`. -/
def variant (ki : Nat) : PackBGeneratorParams where
  NR := if ki = 0 then kernelWidth else ki * kernelWidth
  useMask := decide (ki = 0)
  nLoop := decide (ki = jit.numFull)
  accColSum := jit.accColSum

/-- `generateAllKernels`; `none` for a configuration that is refused. -/
def generateAllKernels : Option (List Emitted) :=
  if jit.NR = 0 ∨ jit.NR % kernelWidth ≠ 0 then none
  else (List.range (jit.numFull + 1)).mapM fun ki =>
    (jit.variant ki).generateKernel

/-- `advance`. -/
def advance (width k : Nat) (state : State) : State :=
  let kcUpdated := (k + 3) / 4 * 4
  let moved := setField .dst
    (state.field .dst + BitVec.ofNat 64 (width * kcUpdated))
    (setField .src (state.field .src + BitVec.ofNat 64 width) state)
  if jit.accColSum then
    setField .colSum (moved.field .colSum + BitVec.ofNat 64 (4 * width)) moved
  else moved

/-- The call over the full panels. -/
def ExecutesFull (kernelCodeBlocks : List Emitted) (n k : Nat)
    (before after : State) : Prop :=
  let nFullPiecesLimit := n / jit.NR * jit.NR
  if 0 < nFullPiecesLimit then
    ∃ packed,
      Calls kernelCodeBlocks jit.numFull
        (setField .nPartial 0
          (setField .nFullPiecesLimit (BitVec.ofNat 64 nFullPiecesLimit)
            before)) packed ∧
      after = jit.advance nFullPiecesLimit k packed
  else after = before

/-- The call over whole blocks of 16 columns. -/
def ExecutesBlocks (kernelCodeBlocks : List Emitted) (baseW k : Nat)
    (before after : State) : Prop :=
  if 0 < baseW then
    ∃ packed,
      Calls kernelCodeBlocks (baseW / kernelWidth) before packed ∧
      after = jit.advance baseW k packed
  else after = before

/-- The call over the last columns. -/
def ExecutesFringe (kernelCodeBlocks : List Emitted) (nPartial : Nat)
    (before after : State) : Prop :=
  if 0 < nPartial then
    Calls kernelCodeBlocks 0
      (setField .nFringeMaskPerBlock (BitVec.ofNat 64 (2 ^ nPartial - 1))
        before) after
  else after = before

/-- `executeKernel` where it succeeds, with the `n` and `k` of the
parameters. -/
def ExecuteKernel (kernelCodeBlocks : List Emitted) (n k : Nat)
    (start final : State) : Prop :=
  let nFullPiecesLimit := n / jit.NR * jit.NR
  let nPartial := n - nFullPiecesLimit
  let baseW := nPartial / kernelWidth * kernelWidth
  (jit.accColSum = true → start.field .colSum ≠ 0) ∧
    ∃ full base fringe,
      jit.ExecutesFull kernelCodeBlocks n k start full ∧
      jit.ExecutesBlocks kernelCodeBlocks baseW k full base ∧
      ExecutesFringe kernelCodeBlocks (nPartial - baseW) base fringe ∧
      final =
        setField .csDst 64
          (setField .rsDst (BitVec.ofNat 64 (jit.NR * kFactor)) fringe)

end JitAmdZenPackBINT8

/-! ## One outcome -/

theorem Calls.unique {blocks : List Emitted} {index : Nat}
    {before first second : State} (one : Calls blocks index before first)
    (other : Calls blocks index before second) : first = second := by
  rcases one with ⟨code, here, runs⟩
  rcases other with ⟨code2, here2, runs2⟩
  cases Option.some.inj (here.symm.trans here2)
  exact Runs.unique semantics runs runs2

namespace JitAmdZenPackBINT8

variable {jit : JitAmdZenPackBINT8} {blocks : List Emitted} {n k : Nat}
variable {before first second : State}

theorem ExecutesFull.unique
    (one : jit.ExecutesFull blocks n k before first)
    (other : jit.ExecutesFull blocks n k before second) :
    first = second := by
  unfold ExecutesFull at one other
  dsimp only at one other
  split_ifs at one other with full
  · rcases one with ⟨packed, calls, rfl⟩
    rcases other with ⟨packed2, calls2, rfl⟩
    rw [calls.unique calls2]
  · exact one.trans other.symm

theorem ExecutesBlocks.unique {baseW : Nat}
    (one : jit.ExecutesBlocks blocks baseW k before first)
    (other : jit.ExecutesBlocks blocks baseW k before second) :
    first = second := by
  unfold ExecutesBlocks at one other
  split_ifs at one other with whole
  · rcases one with ⟨packed, calls, rfl⟩
    rcases other with ⟨packed2, calls2, rfl⟩
    rw [calls.unique calls2]
  · exact one.trans other.symm

theorem ExecutesFringe.unique {nPartial : Nat}
    (one : ExecutesFringe blocks nPartial before first)
    (other : ExecutesFringe blocks nPartial before second) :
    first = second := by
  unfold ExecutesFringe at one other
  split_ifs at one other with partial_
  · exact one.unique other
  · exact one.trans other.symm

/-- `executeKernel` has one outcome. -/
theorem ExecuteKernel.unique
    (one : jit.ExecuteKernel blocks n k before first)
    (other : jit.ExecuteKernel blocks n k before second) :
    first = second := by
  rcases one with ⟨_, full, base, fringe, packs, wholes, rest, rfl⟩
  rcases other with ⟨_, full2, base2, fringe2, packs2, wholes2, rest2, rfl⟩
  cases packs.unique packs2
  cases wholes.unique wholes2
  cases rest.unique rest2
  rfl

end JitAmdZenPackBINT8

/-! ## What the calls write -/

/-- Columns of a source from one on. -/
def columnsFrom (source : Source) (first width : Nat) : Source :=
  { source with live := width, element := fun p j =>
      source.element p (first + j) }

/-- The bytes of the packed columns. -/
def packedBytes (source : Source) : Nat :=
  roundUp source.live kernelWidth * source.kcUpdated

/-- What the orchestrator reads and writes. -/
structure PackData (jit : JitAmdZenPackBINT8) (source : Source)
    (words : Nat → BitVec 32) (src dst colSum : BitVec 64)
    (memory : Memory) : Prop where
  small : source.k < 2 ^ 62
  below : src.toNat + source.live < 2 ^ 63
  stored : ∀ p < source.k, ∀ j < source.live,
    memory (offset src (p * source.ldb + j)) = some (source.element p j) ∧
      Outside dst (packedBytes source) (offset src (p * source.ldb + j)) ∧
      (jit.accColSum = true → Outside colSum (4 * source.live)
        (offset src (p * source.ldb + j)))
  mapped : Mapped memory dst (packedBytes source)
  extent : packedBytes source ≤ 2 ^ 64
  sums : jit.accColSum = true →
    WordsAt memory colSum source.live words ∧ 4 * source.live ≤ 2 ^ 64 ∧
      Apart dst colSum (packedBytes source) source.live

/-- The parameter block and memory behind some slots and columns. -/
structure PackedTo (jit : JitAmdZenPackBINT8) (source : Source)
    (words : Nat → BitVec 32) (src dst colSum : BitVec 64)
    (image : Nat → BitVec 8) (start : Memory) (slots columns : Nat)
    (state : State) : Prop where
  k : state.field .k = BitVec.ofNat 64 source.k
  rsSrc : state.field .rsSrc = BitVec.ofNat 64 source.ldb
  written : state.memory =
    overlay (areas dst colSum jit.accColSum (slots * source.kcUpdated)
      columns image (summed source words)) start

/-- The pointers of the parameter block. -/
structure PointsTo (jit : JitAmdZenPackBINT8) (source : Source)
    (src dst colSum : BitVec 64) (columns : Nat) (state : State) :
    Prop where
  srcAt : state.field .src = offset src columns
  dstAt : state.field .dst = offset dst (columns * source.kcUpdated)
  sumsAt : jit.accColSum = true →
    state.field .colSum = offset colSum (4 * columns)

/-- One kernel call over the next columns. -/
structure Piece (jit : JitAmdZenPackBINT8) (source : Source)
    (image : Nat → BitVec 8) (ki first width panels : Nat) : Prop where
  shape : if (jit.variant ki).useMask then panels = 1 ∧ width ≤ blockN
    else width = (jit.variant ki).NR * panels
  fits : first + (jit.variant ki).NR * panels ≤
    roundUp source.live kernelWidth
  inside : first + width ≤ source.live
  pictured : ∀ index < (jit.variant ki).NR * panels * source.kcUpdated,
    kernelImage (jit.variant ki) (columnsFrom source first width) index =
      image (first * source.kcUpdated + index)

section Pieces

variable {jit : JitAmdZenPackBINT8} {source : Source}
variable {words : Nat → BitVec 32} {src dst colSum : BitVec 64}
variable {image : Nat → BitVec 8} {start : Memory}
variable {ki first width panels : Nat} {entry : State}

/-- The bytes of a piece lie among the packed bytes. -/
theorem Piece.bytes (piece : Piece jit source image ki first width panels) :
    first * source.kcUpdated +
        (jit.variant ki).NR * source.kcUpdated * panels ≤
      packedBytes source := by
  rw [Nat.mul_right_comm, ← Nat.add_mul]
  exact Nat.mul_le_mul_right _ piece.fits

/-- What the kernel call of a piece needs. -/
theorem Piece.callData
    (piece : Piece jit source image ki first width panels)
    (data : PackData jit source words src dst colSum start)
    (before : PackedTo jit source words src dst colSum image start first
      first entry) :
    CallData (jit.variant ki) (columnsFrom source first width) panels
      (fun j => words (first + j)) (offset src first)
      (offset dst (first * source.kcUpdated)) (offset colSum (4 * first))
      entry.memory where
  small := data.small
  width := piece.shape
  stored p row j column := by
    change j < width at column
    have inside := piece.inside
    have place : offset (offset src first) (p * source.ldb + j) =
        offset src (p * source.ldb + (first + j)) := by
      rw [offset_offset]
      congr 1
      omega
    rcases data.stored p row (first + j) (by omega) with
      ⟨byte, packed, sums⟩
    have missed : areas dst colSum jit.accColSum (first * source.kcUpdated)
        first image (summed source words)
        (offset src (p * source.ldb + (first + j))) = none :=
      areas_miss (packed.mono (Nat.le_of_add_right_le piece.bytes))
        fun selected => (sums selected).mono (by omega)
    refine ⟨?_, ?_, fun selected => ?_⟩
    · change entry.memory (offset (offset src first)
        (p * source.ldb + j)) = some (source.element p (first + j))
      rw [place, before.written, overlay_miss missed, byte]
    · change Outside _ _ (offset (offset src first) (p * source.ldb + j))
      rw [place]
      exact packed.part piece.bytes
    · change Outside _ _ (offset (offset src first) (p * source.ldb + j))
      rw [place]
      change Outside _ (4 * width) _
      exact (sums selected).part (by omega)
  mapped index below := by
    change index < (jit.variant ki).NR * source.kcUpdated * panels at below
    have bytes := piece.bytes
    rw [before.written, offset_offset]
    exact overlay_isSome (data.mapped _ (by omega)) _
  extent := (Nat.le_of_add_left_le piece.bytes).trans data.extent
  sums selected := by
    rcases data.sums selected with ⟨stored, room, apart⟩
    have inside := piece.inside
    change WordsAt _ _ width _ ∧ 4 * width ≤ 2 ^ 64 ∧ Apart _ _ _ width
    refine ⟨fun index below => ?_, by omega, fun index below => ?_⟩
    · have missed : areas dst colSum jit.accColSum
          (first * source.kcUpdated) first image (summed source words)
          (offset colSum (4 * first + index)) = none := by
        refine areas_miss ((apart _ (by omega)).mono
          (Nat.le_of_add_right_le piece.bytes)) fun _ => ?_
        rw [Outside, offset_index colSum (by omega)]
        omega
      rw [before.written, offset_offset, overlay_miss missed,
        stored _ (by omega), wordBytes_shift]
    · rw [offset_offset]
      exact (apart _ (by omega)).part piece.bytes

/-- The column sums of a piece. -/
theorem columnSum_columnsFrom (source : Source) {first width j : Nat}
    (inside : first + width ≤ source.live) (column : j < width) :
    columnSum (columnsFrom source first width) j =
      columnSum source (first + j) := by
  unfold columnSum
  congr 2
  refine List.map_congr_left fun p member => ?_
  have row := List.mem_range.mp member
  have here : (columnsFrom source first width).padded p j =
      source.element p (first + j) := if_pos ⟨row, column⟩
  have there : source.padded p (first + j) = source.element p (first + j) :=
    if_pos ⟨row, by omega⟩
  rw [here, there]

/-- The kernel call of a piece. -/
theorem Piece.packs {code : Emitted}
    (piece : Piece jit source image ki first width panels)
    (generated : (jit.variant ki).generateKernel = some code)
    (data : PackData jit source words src dst colSum start)
    (before : PackedTo jit source words src dst colSum image start first
      first entry)
    (fields : Fields (jit.variant ki) (columnsFrom source first width)
      (offset src first) (offset dst (first * source.kcUpdated))
      (offset colSum (4 * first)) entry.field)
    (counts : Counts (jit.variant ki) (columnsFrom source first width)
      (offset src first) panels) :
    ∃ after, Runs semantics code entry after ∧
      after.field = strides (jit.variant ki) entry.field ∧
      PackedTo jit source words src dst colSum image start
        (first + (jit.variant ki).NR * panels) (first + width) after := by
  have legal := (generated_iff.mp generated).1
  have call := piece.callData data before
  rcases generateKernel_runs generated call fields counts with
    ⟨after, runs, field, memory⟩
  refine ⟨after, runs, field, ?_, ?_, ?_⟩
  · rw [field]
    simp [strides, before.k]
  · rw [field]
    simp [strides, before.rsSrc]
  · have all : columns (jit.variant ki) (columnsFrom source first width)
        panels = width := call.all_columns legal
    have bytes : (jit.variant ki).NR *
        (columnsFrom source first width).kcUpdated * panels =
          (jit.variant ki).NR * panels * source.kcUpdated :=
      Nat.mul_right_comm _ _ _
    have fits := piece.bytes
    rw [memory, before.written, overlay_overlay, kernelWrites, all, bytes,
      Nat.add_mul]
    rw [Nat.mul_right_comm] at fits
    congr 1
    refine areas_append (fits.trans data.extent) (fun selected => ?_)
      (fun selected => ?_) piece.pictured fun j column => ?_
    · have room := (data.sums selected).2.1
      have inside := piece.inside
      omega
    · have inside := piece.inside
      exact (data.sums selected).2.2.part fits (by omega)
    · unfold summed
      rw [columnSum_columnsFrom source piece.inside column]

/-- An element in the image of a piece. -/
theorem Piece.image_at
    (piece : Piece jit source image ki first width panels)
    {panel p i : Nat} (within : panel < panels)
    (row : p < source.kcUpdated) (slot : i < (jit.variant ki).NR)
    (column : (jit.variant ki).NR * panel + i < width ∨
      first + width = source.live) :
    image (first * source.kcUpdated +
        ((jit.variant ki).NR * source.kcUpdated * panel +
          dlpReorderElemOffset p i (jit.variant ki).NR kFactor)) =
      source.padded p (first + ((jit.variant ki).NR * panel + i)) := by
  have small := elemOffset_panel source row slot
  have fits := bytes_fit (jit.variant ki) source within
  rw [Nat.mul_right_comm _ _ panels] at fits
  have panelByte : kernelImage (jit.variant ki)
      (columnsFrom source first width)
      ((jit.variant ki).NR * source.kcUpdated * panel +
        dlpReorderElemOffset p i (jit.variant ki).NR kFactor) =
      (columnsFrom source first width).panelImage (jit.variant ki).NR
        ((jit.variant ki).NR * panel)
        (dlpReorderElemOffset p i (jit.variant ki).NR kFactor) :=
    kernelImage_panel panel small
  rw [← piece.pictured _ (by omega)]
  refine panelByte.trans ?_
  rw [panelImage_elemOffset _ _ slot]
  have inside := piece.inside
  unfold Source.padded
  by_cases stored : p < source.k ∧ (jit.variant ki).NR * panel + i < width
  · exact (if_pos stored).trans (if_pos ⟨stored.1, by omega⟩).symm
  · exact (if_neg stored).trans
      (if_neg fun both => stored ⟨both.1, by omega⟩).symm

end Pieces

/-! ## The pieces of a call -/

/-- The bytes of all packed columns. -/
def packedImage (jit : JitAmdZenPackBINT8) (source : Source) (index : Nat) :
    BitVec 8 :=
  let n := source.live
  let kcUpdated := source.kcUpdated
  let full := n / jit.NR * jit.NR
  let whole := n / kernelWidth * kernelWidth
  if index < full * kcUpdated then
    kernelImage (jit.variant jit.numFull) (columnsFrom source 0 full) index
  else if index < whole * kcUpdated then
    kernelImage (jit.variant ((whole - full) / kernelWidth))
      (columnsFrom source full (whole - full)) (index - full * kcUpdated)
  else
    kernelImage (jit.variant 0) (columnsFrom source whole (n - whole))
      (index - whole * kcUpdated)

namespace JitAmdZenPackBINT8

variable {jit : JitAmdZenPackBINT8} {source : Source}

theorem variant_NR (jit : JitAmdZenPackBINT8) {ki : Nat}
    (positive : 0 < ki) :
    (jit.variant ki).NR = ki * 16 :=
  if_neg (Nat.ne_of_gt positive)

theorem variant_unmasked {ki : Nat} (positive : 0 < ki) :
    (jit.variant ki).useMask = false :=
  decide_eq_false (Nat.ne_of_gt positive)

/-- The widest kernel. -/
theorem variant_numFull (widths : Widths jit.NR kernelWidth) :
    0 < jit.numFull ∧ (jit.variant jit.numFull).NR = jit.NR := by
  have positive : 0 < jit.numFull :=
    Nat.div_pos (Nat.le_of_dvd widths.NR_pos widths.divides)
      widths.minNR_pos
  rw [variant_NR jit positive]
  exact ⟨positive, Nat.div_mul_cancel widths.divides⟩

/-- The kernel of the whole blocks behind the full panels. -/
theorem variant_blocks (widths : Widths jit.NR kernelWidth)
    (some_ : source.live / jit.NR * jit.NR <
      source.live / kernelWidth * kernelWidth) :
    0 < (source.live / kernelWidth * kernelWidth -
        source.live / jit.NR * jit.NR) / kernelWidth ∧
      (jit.variant ((source.live / kernelWidth * kernelWidth -
        source.live / jit.NR * jit.NR) / kernelWidth)).NR =
          source.live / kernelWidth * kernelWidth -
            source.live / jit.NR * jit.NR := by
  have aligned : kernelWidth ∣ source.live / kernelWidth * kernelWidth -
      source.live / jit.NR * jit.NR :=
    Nat.dvd_sub (Nat.dvd_mul_left _ _)
      (widths.divides.trans (Nat.dvd_mul_left _ _))
  have positive := Nat.div_pos (Nat.le_of_dvd (by omega) aligned)
    widths.minNR_pos
  rw [variant_NR jit positive]
  exact ⟨positive, Nat.div_mul_cancel aligned⟩

/-- The piece of the full panels. -/
theorem fullPiece (widths : Widths jit.NR kernelWidth) :
    Piece jit source (packedImage jit source) jit.numFull 0
      (source.live / jit.NR * jit.NR) (source.live / jit.NR) := by
  rcases variant_numFull widths with ⟨positive, widest⟩
  have part := Nat.div_mul_le_self source.live jit.NR
  constructor
  · rw [variant_unmasked positive, widest, if_neg Bool.false_ne_true,
      Nat.mul_comm]
  · rw [widest, Nat.zero_add, Nat.mul_comm]
    exact part.trans (le_roundUp widths.minNR_pos source.live)
  · rw [Nat.zero_add]
    exact part
  · intro index below
    rw [widest, Nat.mul_comm jit.NR] at below
    rw [Nat.zero_mul, Nat.zero_add]
    exact (if_pos below).symm

/-- The piece of the whole blocks behind them. -/
theorem blocksPiece (widths : Widths jit.NR kernelWidth)
    (some_ : source.live / jit.NR * jit.NR <
      source.live / kernelWidth * kernelWidth) :
    Piece jit source (packedImage jit source)
      ((source.live / kernelWidth * kernelWidth -
        source.live / jit.NR * jit.NR) / kernelWidth)
      (source.live / jit.NR * jit.NR)
      (source.live / kernelWidth * kernelWidth -
        source.live / jit.NR * jit.NR) 1 := by
  rcases variant_blocks widths some_ with ⟨positive, wide⟩
  have part := Nat.div_mul_le_self source.live kernelWidth
  have room := le_roundUp widths.minNR_pos source.live
  constructor
  · rw [variant_unmasked positive, wide, if_neg Bool.false_ne_true,
      Nat.mul_one]
  · rw [wide]
    omega
  · omega
  · intro index below
    rw [wide, Nat.mul_one, Nat.sub_mul] at below
    have behind : ¬ source.live / jit.NR * jit.NR * source.kcUpdated +
        index < source.live / jit.NR * jit.NR * source.kcUpdated := by
      omega
    have before : source.live / jit.NR * jit.NR * source.kcUpdated +
        index < source.live / kernelWidth * kernelWidth *
          source.kcUpdated := by
      omega
    rw [packedImage, if_neg behind, if_pos before, Nat.add_sub_cancel_left]

/-- The piece of the last columns. -/
theorem fringePiece (widths : Widths jit.NR kernelWidth)
    (some_ : source.live / kernelWidth * kernelWidth < source.live) :
    Piece jit source (packedImage jit source) 0
      (source.live / kernelWidth * kernelWidth)
      (source.live - source.live / kernelWidth * kernelWidth) 1 := by
  have covers := le_roundUp widths.minNR_pos source.live
  have ends := add_le_of_dvd_lt
    (dvd_blockStart source.live kernelWidth)
    (dvd_roundUp source.live kernelWidth) (some_.trans_le covers)
  have rest := Nat.lt_div_mul_add (a := source.live) widths.minNR_pos
  have fullLe := widths.full_le_tail source.live
  constructor
  · refine (if_pos rfl).mpr ⟨rfl, ?_⟩
    change _ ≤ kernelWidth
    omega
  · exact ends
  · omega
  · intro index below
    have apart := Nat.mul_le_mul_right source.kcUpdated fullLe
    unfold blockStart at apart
    have behind : ¬ source.live / kernelWidth * kernelWidth *
        source.kcUpdated + index <
          source.live / jit.NR * jit.NR * source.kcUpdated := by
      omega
    have last : ¬ source.live / kernelWidth * kernelWidth *
        source.kcUpdated + index <
          source.live / kernelWidth * kernelWidth * source.kcUpdated := by
      omega
    rw [packedImage, if_neg behind, if_neg last, Nat.add_sub_cancel_left]

end JitAmdZenPackBINT8

/-! ## The run of a call -/

section Moves

variable {jit : JitAmdZenPackBINT8} {source : Source}
variable {words : Nat → BitVec 32} {src dst colSum : BitVec 64}
variable {image : Nat → BitVec 8} {start : Memory}
variable {ki first width panels slots columns : Nat} {state entry : State}

/-- A field that no step of the packing reads. -/
theorem PackedTo.setField
    (before : PackedTo jit source words src dst colSum image start slots
      columns state) {field : PackBParams} (notK : field ≠ .k)
    (notStride : field ≠ .rsSrc) (value : BitVec 64) :
    PackedTo jit source words src dst colSum image start slots columns
      (setField field value state) where
  k := (Function.update_of_ne notK.symm _ _).trans before.k
  rsSrc := (Function.update_of_ne notStride.symm _ _).trans before.rsSrc
  written := before.written

/-- A field that is no pointer. -/
theorem PointsTo.setField
    (points : PointsTo jit source src dst colSum columns state)
    {field : PackBParams} (notSrc : field ≠ .src) (notDst : field ≠ .dst)
    (notSums : field ≠ .colSum) (value : BitVec 64) :
    PointsTo jit source src dst colSum columns
      (setField field value state) where
  srcAt := (Function.update_of_ne notSrc.symm _ _).trans points.srcAt
  dstAt := (Function.update_of_ne notDst.symm _ _).trans points.dstAt
  sumsAt selected :=
    (Function.update_of_ne notSums.symm _ _).trans (points.sumsAt selected)

/-- A call leaves the pointers alone. -/
theorem PointsTo.strides
    (points : PointsTo jit source src dst colSum columns entry)
    {params : PackBGeneratorParams}
    (field : state.field = strides params entry.field) :
    PointsTo jit source src dst colSum columns state where
  srcAt := by
    rw [field]
    simpa [PackBKernel.strides] using points.srcAt
  dstAt := by
    rw [field]
    simpa [PackBKernel.strides] using points.dstAt
  sumsAt selected := by
    rw [field]
    simpa [PackBKernel.strides] using points.sumsAt selected

/-- `advance` moves the pointers. -/
theorem PointsTo.advance
    (points : PointsTo jit source src dst colSum columns state)
    (width : Nat) :
    PointsTo jit source src dst colSum (columns + width)
      (jit.advance width source.k state) := by
  have next (address : BitVec 64) (here more : Nat) :
      offset address here + BitVec.ofNat 64 more =
        offset address (here + more) := offset_offset address here more
  have moved : state.field .dst +
      BitVec.ofNat 64 (width * source.kcUpdated) =
        offset dst ((columns + width) * source.kcUpdated) := by
    rw [points.dstAt, next, Nat.add_mul]
  have read : state.field .src + BitVec.ofNat 64 width =
      offset src (columns + width) := by
    rw [points.srcAt, next]
  unfold JitAmdZenPackBINT8.advance
  cases selected : jit.accColSum with
  | true =>
      have added : state.field .colSum + BitVec.ofNat 64 (4 * width) =
          offset colSum (4 * (columns + width)) := by
        rw [points.sumsAt selected, next, Nat.mul_add]
      refine ⟨?_, ?_, fun _ => ?_⟩
      · simpa [PackBExecute.setField, Function.update_of_ne] using read
      · simpa [PackBExecute.setField, Function.update_of_ne,
          Source.kcUpdated] using moved
      · simpa [PackBExecute.setField, Function.update_of_ne] using added
  | false =>
      refine ⟨?_, ?_, fun absent => ?_⟩
      · simpa [PackBExecute.setField, Function.update_of_ne] using read
      · simpa [PackBExecute.setField, Function.update_of_ne,
          Source.kcUpdated] using moved
      · exact absurd (selected.symm.trans absent) Bool.false_ne_true

/-- `advance` writes nothing. -/
theorem PackedTo.advance
    (before : PackedTo jit source words src dst colSum image start slots
      columns state) (width : Nat) :
    PackedTo jit source words src dst colSum image start slots columns
      (jit.advance width source.k state) := by
  have moved := (before.setField (by decide : PackBParams.src ≠ .k)
    (by decide) (state.field .src + BitVec.ofNat 64 width)).setField
      (by decide : PackBParams.dst ≠ .k) (by decide)
      (state.field .dst + BitVec.ofNat 64 (width * source.kcUpdated))
  unfold JitAmdZenPackBINT8.advance
  cases selected : jit.accColSum with
  | true => exact moved.setField (by decide) (by decide) _
  | false => exact moved

/-- The parameter block of a piece. -/
theorem PackedTo.fields
    (before : PackedTo jit source words src dst colSum image start slots
      columns state)
    (points : PointsTo jit source src dst colSum first state)
    (limit : (jit.variant ki).nLoop = true →
      state.field .nFullPiecesLimit = BitVec.ofNat 64 width)
    (mask : (jit.variant ki).useMask = true → ∀ index < blockN,
      (state.field .nFringeMaskPerBlock).getLsbD index =
        decide (index < width)) :
    Fields (jit.variant ki) (columnsFrom source first width)
      (offset src first) (offset dst (first * source.kcUpdated))
      (offset colSum (4 * first)) state.field where
  srcAt := points.srcAt
  dstAt := points.dstAt
  k := before.k
  rsSrc := before.rsSrc
  limit := limit
  mask := mask
  sumsAt := points.sumsAt

end Moves

namespace JitAmdZenPackBINT8

section Run

variable {jit : JitAmdZenPackBINT8} {blocks : List Emitted}
variable {source : Source} {words : Nat → BitVec 32}
variable {src dst colSum : BitVec 64} {start : Memory} {state : State}

/-- What a generated table is for. -/
theorem widths_of_generated
    (generated : jit.generateAllKernels = some blocks) :
    Widths jit.NR kernelWidth := by
  unfold generateAllKernels at generated
  split_ifs at generated with refused
  rcases not_or.mp refused with ⟨nonzero, aligned⟩
  exact ⟨Nat.pos_of_ne_zero nonzero, by decide,
    Nat.dvd_of_mod_eq_zero (not_not.mp aligned)⟩

/-- The kernels of a table that was generated. -/
theorem kernelCodeBlocks_get
    (generated : jit.generateAllKernels = some blocks) {ki : Nat}
    (inside : ki ≤ jit.numFull) :
    ∃ code, blocks[ki]? = some code ∧
      (jit.variant ki).generateKernel = some code := by
  unfold generateAllKernels at generated
  split_ifs at generated
  exact mapM_getElem? generated
    (List.getElem?_range (Nat.lt_succ_of_le inside))

/-- The configurations that are accepted: the column sums of a panel must fit
their eight registers. -/
theorem generateAllKernels_isSome_iff (jit : JitAmdZenPackBINT8) :
    jit.generateAllKernels.isSome ↔
      Widths jit.NR kernelWidth ∧
        (jit.accColSum = true → jit.NR ≤ 128) := by
  have emitted (params : PackBGeneratorParams) :
      params.generateKernel.isSome ↔ params.accepted = true := by
    rw [Option.isSome_iff_exists]
    simp [generated_iff]
  unfold generateAllKernels
  split_ifs with refused
  · refine iff_of_false Bool.false_ne_true fun accepted => ?_
    rcases refused with zero | misaligned
    · exact absurd zero (Nat.ne_of_gt accepted.1.NR_pos)
    · exact misaligned (Nat.mod_eq_zero_of_dvd accepted.1.divides)
  · rcases not_or.mp refused with ⟨nonzero, aligned⟩
    have widths : Widths jit.NR kernelWidth :=
      ⟨Nat.pos_of_ne_zero nonzero, by decide,
        Nat.dvd_of_mod_eq_zero (not_not.mp aligned)⟩
    rcases variant_numFull widths with ⟨positive, widest⟩
    have blocks : jit.numFull * 16 = jit.NR :=
      (variant_NR jit positive).symm.trans widest
    rw [mapM_isSome_iff, and_iff_right widths]
    constructor
    · intro every sums
      have last := (emitted _).mp (every jit.numFull
        (List.mem_range.mpr (Nat.lt_succ_self _)))
      rw [← widest]
      exact (accepted_iff.mp last).2.1 sums
    · intro narrow ki member
      have inside := List.mem_range.mp member
      rw [emitted, accepted_iff]
      rcases Nat.eq_zero_or_pos ki with rfl | positive_
      · have narrowest : (jit.variant 0).NR = 16 := rfl
        rw [narrowest]
        exact ⟨by decide, fun _ => by decide, by decide, fun _ => rfl⟩
      · rw [variant_NR jit positive_, variant_unmasked positive_]
        refine ⟨by omega, fun sums => ?_, Nat.mul_mod_left ki 16,
          fun masked => absurd masked Bool.false_ne_true⟩
        have bound := narrow sums
        omega

/-- The full panels. -/
theorem executesFull_packs
    (generated : jit.generateAllKernels = some blocks)
    (data : PackData jit source words src dst colSum start)
    (before : PackedTo jit source words src dst colSum
      (packedImage jit source) start 0 0 state)
    (points : PointsTo jit source src dst colSum 0 state) :
    ∃ after, jit.ExecutesFull blocks source.live source.k state after ∧
      PackedTo jit source words src dst colSum (packedImage jit source)
        start (source.live / jit.NR * jit.NR)
        (source.live / jit.NR * jit.NR) after ∧
      PointsTo jit source src dst colSum
        (source.live / jit.NR * jit.NR) after := by
  have widths := widths_of_generated generated
  rcases variant_numFull widths with ⟨positive, widest⟩
  unfold ExecutesFull
  dsimp only
  split_ifs with full
  · have piece : Piece jit source _ _ _ _ _ := fullPiece widths
    rcases kernelCodeBlocks_get generated le_rfl with ⟨code, here, emitted⟩
    have ready := (before.setField
      (by decide : PackBParams.nFullPiecesLimit ≠ .k) (by decide)
      (BitVec.ofNat 64 (source.live / jit.NR * jit.NR))).setField
        (by decide : PackBParams.nPartial ≠ .k) (by decide) 0
    have pointers := (points.setField
      (by decide : PackBParams.nFullPiecesLimit ≠ .src) (by decide)
      (by decide)
      (BitVec.ofNat 64 (source.live / jit.NR * jit.NR))).setField
        (by decide : PackBParams.nPartial ≠ .src) (by decide) (by decide) 0
    have part := Nat.div_mul_le_self source.live jit.NR
    have counts : Counts (jit.variant jit.numFull)
        (columnsFrom source 0 (source.live / jit.NR * jit.NR))
        (offset src 0) (source.live / jit.NR) := by
      have below := data.below
      have looped : (jit.variant jit.numFull).nLoop = true :=
        decide_eq_true rfl
      unfold Counts
      rw [if_pos looped, offset_zero]
      refine ⟨variant_unmasked positive, ?_⟩
      change src.toNat + source.live / jit.NR * jit.NR < 2 ^ 63
      omega
    rcases piece.packs emitted data ready
      (ready.fields pointers (fun _ => rfl) fun masked =>
        absurd ((variant_unmasked positive).symm.trans masked)
          Bool.false_ne_true) counts with ⟨packed, runs, field, reached⟩
    rw [widest, Nat.zero_add, Nat.zero_add, Nat.mul_comm jit.NR] at reached
    have moved := (pointers.strides field).advance
      (source.live / jit.NR * jit.NR)
    rw [Nat.zero_add] at moved
    exact ⟨_, ⟨packed, ⟨code, here, runs⟩, rfl⟩, reached.advance _, moved⟩
  · have none : source.live / jit.NR * jit.NR = 0 := by omega
    rw [none]
    exact ⟨state, rfl, before, points⟩

/-- Only the widest kernel has the loop. -/
theorem variant_unlooped {ki : Nat} (smaller : ki < jit.numFull) :
    (jit.variant ki).nLoop = false :=
  decide_eq_false (Nat.ne_of_lt smaller)

/-- A kernel that is not the widest packs one panel. -/
theorem counts_single {ki : Nat} (smaller : ki < jit.numFull)
    (piece : Source) (address : BitVec 64) :
    Counts (jit.variant ki) piece address 1 := by
  unfold Counts
  rw [variant_unlooped smaller, if_neg Bool.false_ne_true]

/-- The whole blocks of 16 columns behind the full panels. -/
theorem executesBlocks_packs
    (generated : jit.generateAllKernels = some blocks)
    (data : PackData jit source words src dst colSum start)
    (before : PackedTo jit source words src dst colSum
      (packedImage jit source) start (source.live / jit.NR * jit.NR)
      (source.live / jit.NR * jit.NR) state)
    (points : PointsTo jit source src dst colSum
      (source.live / jit.NR * jit.NR) state) :
    ∃ after, jit.ExecutesBlocks blocks
        (source.live / kernelWidth * kernelWidth -
          source.live / jit.NR * jit.NR) source.k state after ∧
      PackedTo jit source words src dst colSum (packedImage jit source)
        start (source.live / kernelWidth * kernelWidth)
        (source.live / kernelWidth * kernelWidth) after ∧
      PointsTo jit source src dst colSum
        (source.live / kernelWidth * kernelWidth) after := by
  have widths := widths_of_generated generated
  have fullLe : source.live / jit.NR * jit.NR ≤
      source.live / kernelWidth * kernelWidth :=
    widths.full_le_tail source.live
  unfold ExecutesBlocks
  split_ifs with some_
  · have piece : Piece jit source _ _ _ _ _ :=
      blocksPiece widths (by omega)
    have part := Nat.div_mul_le_self source.live kernelWidth
    have rest := Nat.lt_div_mul_add (a := source.live) widths.NR_pos
    have ends : source.live / jit.NR * jit.NR +
        (source.live / kernelWidth * kernelWidth -
          source.live / jit.NR * jit.NR) =
            source.live / kernelWidth * kernelWidth := by omega
    have smaller : (source.live / kernelWidth * kernelWidth -
        source.live / jit.NR * jit.NR) / kernelWidth < jit.numFull :=
      Nat.div_lt_div_of_lt_of_dvd widths.divides (by omega)
    have short : source.live / jit.NR * jit.NR <
        source.live / kernelWidth * kernelWidth := by omega
    rcases variant_blocks widths short with ⟨positive, wide⟩
    rcases kernelCodeBlocks_get generated (Nat.le_of_lt smaller) with
      ⟨code, here, emitted⟩
    rcases piece.packs emitted data before
      (before.fields points
        (fun looped => absurd
          ((variant_unlooped smaller).symm.trans looped)
          Bool.false_ne_true)
        fun masked => absurd
          ((variant_unmasked positive).symm.trans masked)
          Bool.false_ne_true)
      (counts_single smaller _ _) with ⟨packed, runs, field, reached⟩
    rw [wide, Nat.mul_one, ends] at reached
    have moved := (points.strides field).advance
      (source.live / kernelWidth * kernelWidth -
        source.live / jit.NR * jit.NR)
    rw [ends] at moved
    exact ⟨_, ⟨packed, ⟨code, here, runs⟩, rfl⟩, reached.advance _, moved⟩
  · have same : source.live / kernelWidth * kernelWidth =
        source.live / jit.NR * jit.NR := by omega
    rw [same]
    exact ⟨state, rfl, before, points⟩

/-- The mask of the last columns. -/
theorem getLsbD_mask (count : Nat) {index : Nat} (below : index < blockN) :
    (BitVec.ofNat 64 (2 ^ count - 1)).getLsbD index =
      decide (index < count) := by
  have inside : index < 64 := by
    unfold blockN at below
    omega
  rw [BitVec.getLsbD_ofNat, Nat.testBit_two_pow_sub_one,
    decide_eq_true inside, Bool.true_and]

/-- The last columns. -/
theorem executesFringe_packs
    (generated : jit.generateAllKernels = some blocks)
    (data : PackData jit source words src dst colSum start)
    (before : PackedTo jit source words src dst colSum
      (packedImage jit source) start
      (source.live / kernelWidth * kernelWidth)
      (source.live / kernelWidth * kernelWidth) state)
    (points : PointsTo jit source src dst colSum
      (source.live / kernelWidth * kernelWidth) state) :
    ∃ after, ExecutesFringe blocks
        (source.live - source.live / kernelWidth * kernelWidth) state
        after ∧
      PackedTo jit source words src dst colSum (packedImage jit source)
        start (roundUp source.live kernelWidth) source.live after := by
  have widths := widths_of_generated generated
  have part := Nat.div_mul_le_self source.live kernelWidth
  have covers := le_roundUp widths.minNR_pos source.live
  unfold ExecutesFringe
  split_ifs with some_
  · have piece : Piece jit source _ _ _ _ _ :=
      fringePiece widths (by omega)
    have positive := (variant_numFull widths).1
    rcases kernelCodeBlocks_get generated (Nat.zero_le _) with
      ⟨code, here, emitted⟩
    have ready := before.setField
      (by decide : PackBParams.nFringeMaskPerBlock ≠ .k) (by decide)
      (BitVec.ofNat 64
        (2 ^ (source.live - source.live / kernelWidth * kernelWidth) - 1))
    have pointers := points.setField
      (by decide : PackBParams.nFringeMaskPerBlock ≠ .src) (by decide)
      (by decide) (BitVec.ofNat 64
        (2 ^ (source.live - source.live / kernelWidth * kernelWidth) - 1))
    rcases piece.packs emitted data ready
      (ready.fields pointers
        (fun looped => absurd
          ((variant_unlooped positive).symm.trans looped)
          Bool.false_ne_true)
        fun _ _ below => getLsbD_mask _ below)
      (counts_single positive _ _) with ⟨packed, runs, field, reached⟩
    have slots : source.live / kernelWidth * kernelWidth +
        (jit.variant 0).NR * 1 = roundUp source.live kernelWidth := by
      refine le_antisymm piece.fits (roundUp_le_of_dvd widths.minNR_pos
        (Nat.dvd_add (Nat.dvd_mul_left _ _) ⟨1, rfl⟩) (Nat.le_of_lt ?_))
      exact Nat.lt_div_mul_add widths.minNR_pos
    have live : source.live / kernelWidth * kernelWidth +
        (source.live - source.live / kernelWidth * kernelWidth) =
          source.live := by omega
    rw [slots, live] at reached
    exact ⟨packed, ⟨code, here, runs⟩, reached⟩
  · have whole : source.live / kernelWidth * kernelWidth = source.live := by
      omega
    have rounded : roundUp source.live kernelWidth = source.live :=
      roundUp_of_dvd widths.minNR_pos ⟨_, whole.symm.trans
        (Nat.mul_comm _ _)⟩
    rw [rounded]
    rw [whole] at before
    exact ⟨state, rfl, before⟩

end Run

/-! ## The packed matrix -/

/-- The place of an element of B in the packed matrix. -/
def packedAt (jit : JitAmdZenPackBINT8) (source : Source) (p j : Nat) : Nat :=
  let start := chunkStart source.live jit.NR kernelWidth j
  start * source.kcUpdated +
    dlpReorderElemOffset p (j - start)
      (chunkSlot source.live jit.NR kernelWidth j) kFactor

/-- What `executeKernel` leaves in memory. -/
structure Packs (jit : JitAmdZenPackBINT8) (source : Source)
    (words : Nat → BitVec 32) (dst colSum : BitVec 64)
    (start final : Memory) : Prop where
  packed : ∀ p < source.kcUpdated, ∀ j < roundUp source.live kernelWidth,
    final (offset dst (packedAt jit source p j)) = some (source.padded p j)
  sums : jit.accColSum = true →
    WordsAt final colSum source.live (summed source words)
  kept : ∀ place, Outside dst (packedBytes source) place →
    (jit.accColSum = true → Outside colSum (4 * source.live) place) →
      final place = start place

/-- The parameter block of a request. -/
structure Request (jit : JitAmdZenPackBINT8) (source : Source)
    (src dst colSum : BitVec 64) (state : State) : Prop where
  srcAt : state.field .src = src
  dstAt : state.field .dst = dst
  k : state.field .k = BitVec.ofNat 64 source.k
  rsSrc : state.field .rsSrc = BitVec.ofNat 64 source.ldb
  sumsAt : jit.accColSum = true →
    state.field .colSum = colSum ∧ colSum ≠ 0

section Matrix

variable {jit : JitAmdZenPackBINT8} {blocks : List Emitted}
variable {source : Source} {words : Nat → BitVec 32}
variable {src dst colSum : BitVec 64} {start final : State}

/-- A padded column lies inside its slot. -/
theorem chunk_inside {NR minNR n j : Nat} (widths : Widths NR minNR)
    (column : j < roundUp n minNR) :
    j < chunkStart n NR minNR j + chunkSlot n NR minNR j ∧
      chunkStart n NR minNR j + chunkSlot n NR minNR j ≤
        roundUp n minNR := by
  rcases Nat.lt_or_ge j n with inside | behind
  · exact ⟨widths.lt_chunkEnd inside, widths.chunkEnd_le_roundUp inside⟩
  · have tail := (blockStart_le n minNR).trans behind
    have upper := roundUp_le_of_dvd widths.minNR_pos
      (Nat.dvd_add (dvd_blockStart n minNR) (dvd_refl minNR))
      (Nat.le_of_lt (lt_blockStart_add widths.minNR_pos n))
    have lower := add_le_of_dvd_lt (dvd_blockStart n minNR)
      (dvd_roundUp n minNR) (tail.trans_lt column)
    rcases chunk_tail ((blockStart_le n NR).trans behind) tail with
      ⟨first, slot⟩
    rw [first, slot]
    exact ⟨column.trans_le upper, lower⟩

/-- Every element is in the image, at its place. -/
theorem packedImage_at (widths : Widths jit.NR kernelWidth) {p j : Nat}
    (row : p < source.kcUpdated)
    (column : j < roundUp source.live kernelWidth) :
    packedImage jit source (packedAt jit source p j) =
      source.padded p j := by
  unfold packedAt
  dsimp only
  rcases chunk_kinds source.live jit.NR kernelWidth j with
    full | blocks_ | tail
  · have chunk : chunkStart source.live jit.NR kernelWidth j =
        blockStart j jit.NR ∧
          chunkSlot source.live jit.NR kernelWidth j = jit.NR :=
      chunk_full full
    rcases chunk with ⟨first, slot⟩
    rcases variant_numFull widths with ⟨_, widest⟩
    have lower := blockStart_le j jit.NR
    have upper := lt_blockStart_add widths.NR_pos j
    have panel : j / jit.NR < source.live / jit.NR :=
      Nat.div_lt_of_lt_mul (by rw [Nat.mul_comm]; exact full)
    have start : jit.NR * (j / jit.NR) = blockStart j jit.NR :=
      Nat.mul_comm _ _
    have number : jit.NR * (j / jit.NR) + (j - blockStart j jit.NR) = j := by
      omega
    have piece : Piece jit source _ _ _ _ _ := fullPiece widths
    have image := piece.image_at panel row
      (i := j - blockStart j jit.NR) (by rw [widest]; omega)
      (.inl (by rw [widest, number]; exact full))
    rw [widest, Nat.zero_mul, Nat.zero_add, Nat.zero_add, number,
      Nat.mul_right_comm, start] at image
    rw [first, slot]
    exact image
  · rcases chunk_fringe blocks_.1 blocks_.2 with ⟨first, slot⟩
    have some_ := blocks_.1.trans_lt blocks_.2
    have wide := (variant_blocks widths some_).2
    have image := (blocksPiece widths some_).image_at Nat.one_pos row
      (i := j - blockStart source.live jit.NR)
      (by rw [wide]; unfold blockStart at *; omega)
      (.inl (by unfold blockStart at *; omega))
    have ends : source.live / jit.NR * jit.NR +
        (j - blockStart source.live jit.NR) = j :=
      Nat.add_sub_of_le blocks_.1
    rw [wide, Nat.mul_zero, Nat.mul_zero, Nat.zero_add, Nat.zero_add,
      ends] at image
    rw [first, slot]
    exact image
  · rcases chunk_tail tail.1 tail.2 with ⟨first, slot⟩
    have upper := (chunk_inside widths column).1
    rw [first, slot] at upper
    have some_ : blockStart source.live kernelWidth < source.live := by
      by_contra covered
      have ends := roundUp_le_of_dvd widths.minNR_pos
        (dvd_blockStart source.live kernelWidth)
        (Nat.le_of_not_lt covered)
      omega
    have image := (fringePiece widths some_).image_at Nat.one_pos row
      (i := j - blockStart source.live kernelWidth)
      (by change _ < kernelWidth; omega)
      (.inr (Nat.add_sub_of_le (Nat.le_of_lt some_)))
    have ends : source.live / kernelWidth * kernelWidth +
        (j - blockStart source.live kernelWidth) = j :=
      Nat.add_sub_of_le tail.2
    rw [Nat.mul_zero, Nat.mul_zero, Nat.zero_add, Nat.zero_add,
      ends] at image
    rw [first, slot]
    exact image

/-- Packed slots and columns, element by element. -/
theorem packs_of_packedTo (widths : Widths jit.NR kernelWidth)
    (data : PackData jit source words src dst colSum start.memory)
    (reached : PackedTo jit source words src dst colSum
      (packedImage jit source) start.memory
      (roundUp source.live kernelWidth) source.live final) :
    Packs jit source words dst colSum start.memory final.memory where
  packed p row j column := by
    have inside : packedAt jit source p j < packedBytes source := by
      rcases chunk_inside widths column with ⟨upper, ends⟩
      have lower := Widths.chunkStart_le jit.NR kernelWidth source.live j
      have slot : j - chunkStart source.live jit.NR kernelWidth j <
          chunkSlot source.live jit.NR kernelWidth j := by omega
      have place := elemOffset_panel source row slot
      calc packedAt jit source p j
          < chunkStart source.live jit.NR kernelWidth j *
                source.kcUpdated +
              chunkSlot source.live jit.NR kernelWidth j *
                source.kcUpdated := Nat.add_lt_add_left place _
        _ = (chunkStart source.live jit.NR kernelWidth j +
              chunkSlot source.live jit.NR kernelWidth j) *
                source.kcUpdated := (Nat.add_mul _ _ _).symm
        _ ≤ _ := Nat.mul_le_mul_right _ ends
    rw [reached.written]
    exact (overlay_hit (areas_bytes data.extent
      (fun selected => (data.sums selected).2.2) inside) _).trans
        (congrArg some (packedImage_at widths row column))
  sums selected index below := by
    rw [reached.written]
    exact overlay_hit
      (areas_words selected (data.sums selected).2.1 below) _
  kept place packed sums := by
    rw [reached.written]
    exact overlay_miss (areas_miss packed sums) _

end Matrix

/-! A call with all three pieces: a panel of 32 columns, a block of 16 and
three more. -/

def pieceJit : JitAmdZenPackBINT8 where
  NR := 32
  accColSum := true

def pieceColumns : Source where
  ldb := 51
  k := 2
  live := 51
  element p j := BitVec.ofNat 8 (51 * p + j)

def pieceStart : State where
  gpr _ := 0
  zmm _ _ := 0
  opmask _ := 0
  flags := .ofSub 0 0
  field
    | .dst => 0x1000
    | .k => 2
    | .rsSrc => 51
    | .colSum => 0x2000
    | _ => 0
  memory place :=
    some (if place.toNat < 102 then place.setWidth 8 else 0)

end JitAmdZenPackBINT8

end AoclDlp.Jit.PackBExecute
