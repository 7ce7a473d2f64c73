import AoclDlp.Gemm.Scratch
import AoclDlp.Layout.Bf16Fallback

/-!
# The conversion buffer of the F32 fallback

`dlp_gemm_rowvar_f32_fallback_bf16bf16f32of32` converts panels of B into a
buffer that the chief allocates in its first iteration.  The size covers the
first piece of a split panel and the rest of the first `NC` columns.  A range
of more than `NC` columns that starts inside a panel reaches a wider piece.

The column ranges follow the BF16 table, the loops the F32 context.  The
converters store past their `kc0` rows: the unpacker of fewer than 16 columns
completes the last pair of rows, the row-major converter the last pair of
columns of an odd row.
-/

namespace AoclDlp.Gemm.FallbackBuffer

open AoclDlp.Config.BlockSize
open AoclDlp.Foundations.Rounding
open AoclDlp.Foundations.Span
open AoclDlp.Gemm.PackProtocol
open AoclDlp.Gemm.Scratch
open AoclDlp.Layout.Panel
open AoclDlp.Layout.S8s8s32
open AoclDlp.Threading.TaskRange
open AoclDlp.Threading.WorkPartition

/-! ## The driver -/

/-- A call of the fallback driver. -/
structure FallbackCall where
  m : Nat
  n : Nat
  k : Nat
  blksz : DlpGemmBlockSize
  processor : Processor
  reordered : Bool
  csB : Nat
  icWays : Nat
  jcWays : Nat

namespace FallbackCall

variable (call : FallbackCall)

/-- `lcntx_og_bf16->blksz`. -/
def ogBf16 : DlpGemmBlockSize :=
  dlpGemmCntxInitBlkszMap call.processor .bf16bf16f32of32

/-- The thread with row work id `ic` in the group `jc`. -/
def thread (jc ic : Nat) : DlpGemmThrinfo where
  nThreads := call.icWays * call.jcWays
  tid := call.icWays * jc + ic
  icWays := call.icWays
  jcWays := call.jcWays

/-- `thread_ic`. -/
def threadIc (jc ic : Nat) : DlpTaskId :=
  (dlpGemmGenDlpTaskIds (some (call.thread jc ic))).2

/-- `jc_start` and `jc_end`. -/
def jcRange (jc ic : Nat) : Nat × Nat :=
  gemmJcRange (call.thread jc ic) call.n call.ogBf16.NR

/-- `ic_start` and `ic_end`. -/
def icRange (jc ic : Nat) : Nat × Nat :=
  gemmIcRange (call.thread jc ic) call.m call.ogBf16.MR

/-- The `jc` steps of a thread. -/
def steps (jc ic : Nat) : List Piece :=
  jcSteps call.reordered call.n call.blksz.NC 16 (call.jcRange jc ic)

/-- The `pc` steps. -/
def rows : List Piece :=
  pcLoop call.k call.blksz.KC call.k 0

/-- The elements for which the chief of a group allocates the buffer. -/
def cvtBSize (jc : Nat) : Nat :=
  match call.steps jc 0, call.rows with
  | first :: _, row :: _ =>
      let remainingNcAfterCurrent :=
        min ((call.jcRange jc 0).2 - first.start) call.blksz.NC - first.width
      let nc0Buf := max remainingNcAfterCurrent first.width
      dlpMakeMultipleOfN nc0Buf 16 * (row.width + row.width % 2)
  | _, _ => 0

/-- `jc_packb_start` and `jc_packb_end`. -/
def packRange (jc ic nc0 : Nat) : Nat × Nat :=
  dlpThreadTaskRange (call.threadIc jc ic) nc0 call.ogBf16.NR false

/-- The elements of a row-major `kc0` by `width` part of the buffer. -/
def partIndices (start nc0 kc0 width : Nat) : List Nat :=
  (List.range kc0).flatMap fun kr =>
    (List.range width).map fun col => start + (kr * nc0 + col)

/-- The elements that `dlp_cvt_bf16_f32` stores.  The single-row loop of the
row-major converter stores two elements for the last of an odd number of
columns. -/
def cvtIndices (start nc0 kc0 width : Nat) : List Nat :=
  partIndices start nc0 kc0 width ++
    if call.csB = 1 ∧ kc0 % 2 = 1 ∧ width % 2 = 1 then
      [start + ((kc0 - 1) * nc0 + width)]
    else []

/-- The elements that `dlp_unpackb_nr64_bf16_f32` stores.  The unpackers of
64, 48, 32 and 16 columns store `kc0` rows, the unpacker of the fewer than 16
columns that remain stores its rows in pairs. -/
def unpackIndices (start nc0 kc0 width : Nat) : List Nat :=
  partIndices start nc0 kc0 (width / 16 * 16) ++
    partIndices (start + width / 16 * 16) nc0 (kc0 + kc0 % 2) (width % 16)

/-- The elements that a thread writes while it converts its part of a
panel. -/
def writes (jc ic : Nat) (step row : Piece) : List Nat :=
  let packb := call.packRange jc ic step.width
  if packb.1 < packb.2 ∧ packb.1 < step.start + step.width then
    if call.reordered then
      unpackIndices packb.1 step.width row.width (packb.2 - packb.1)
    else call.cvtIndices packb.1 step.width row.width (packb.2 - packb.1)
  else []

/-- The elements that the kernel calls of a thread read. -/
def reads (jc ic : Nat) (step row : Piece) : List Nat :=
  (pcLoop (call.icRange jc ic).2 call.blksz.MC (call.icRange jc ic).2
      (call.icRange jc ic).1).flatMap fun _ =>
    (pcLoop step.width call.blksz.NR step.width 0).flatMap fun jr =>
      partIndices jr.start step.width row.width jr.width

/-- All elements of `cvt_b_buffer_bf16_f32` that a thread touches. -/
def cvtBIndices (jc ic : Nat) : List Nat :=
  (call.steps jc ic).flatMap fun step =>
    call.rows.flatMap fun row =>
      call.writes jc ic step row ++ call.reads jc ic step row

/-- All threads of a group stay inside the buffer. -/
def BufferSuffices (jc : Nat) : Prop :=
  ∀ ic index, ic < call.icWays → index ∈ call.cvtBIndices jc ic →
    index < call.cvtBSize jc

end FallbackCall

/-! ## When the buffer suffices -/

/-- `jc_start` within its panel. -/
def panelOffset (NC : Nat) (range : Nat × Nat) : Nat :=
  range.1 % NC

/-- The columns for which the chief allocates if its range is longer than a
panel: the larger part of a split panel. -/
def bufferColumns (NC : Nat) (range : Nat × Nat) : Nat :=
  max (panelOffset NC range) (NC - panelOffset NC range)

/--
The later pieces of a range longer than a panel fit: the second piece with its
live rows, and for an odd number of rows a last piece with a fringe of fewer
than 16 columns, which is stored in pairs of rows.
-/
def LaterFit (call : FallbackCall) (range : Nat × Nat) : Prop :=
  min call.blksz.NC (range.2 - range.1 -
      (call.blksz.NC - panelOffset call.blksz.NC range)) *
      min call.k call.blksz.KC ≤
    bufferColumns call.blksz.NC range *
      (min call.k call.blksz.KC + min call.k call.blksz.KC % 2) ∧
  (min call.k call.blksz.KC % 2 = 1 → range.2 % 16 ≠ 0 →
    range.2 % call.blksz.NC ≤ bufferColumns call.blksz.NC range)

instance (call : FallbackCall) (range : Nat × Nat) :
    Decidable (LaterFit call range) :=
  inferInstanceAs (Decidable (_ ∧ (_ → _ → _)))

/-- `PACK`, at most `NC` columns, or later pieces that fit. -/
def Fits (call : FallbackCall) (range : Nat × Nat) : Prop :=
  call.reordered = false ∨ range.2 - range.1 ≤ call.blksz.NC ∨
    LaterFit call range

instance (call : FallbackCall) (range : Nat × Nat) :
    Decidable (Fits call range) :=
  inferInstanceAs (Decidable (_ ∨ _ ∨ _))

/-- The rows that the unpackers of a piece reach. -/
def unpackedRows (width kc0 : Nat) : Nat :=
  if width % 16 = 0 then kc0 else kc0 + kc0 % 2

/-- A bound for the rows that a step reaches. -/
def rowsReached (call : FallbackCall) (width kc0 : Nat) : Nat :=
  if call.reordered then unpackedRows width kc0 else kc0 + kc0 % 2

theorem le_unpackedRows (width kc0 : Nat) : kc0 ≤ unpackedRows width kc0 := by
  unfold unpackedRows
  split <;> omega

theorem le_rowsReached (call : FallbackCall) (width kc0 : Nat) :
    kc0 ≤ rowsReached call width kc0 := by
  unfold rowsReached unpackedRows
  split_ifs <;> omega

theorem rowsReached_le (call : FallbackCall) (width kc0 : Nat) :
    rowsReached call width kc0 ≤ kc0 + kc0 % 2 := by
  unfold rowsReached unpackedRows
  split_ifs <;> omega

theorem rowsReached_mono (call : FallbackCall) (width : Nat)
    {lower upper : Nat} (below : lower ≤ upper) :
    rowsReached call width lower ≤ rowsReached call width upper := by
  unfold rowsReached unpackedRows
  split_ifs <;> omega

/-- Every installed BF16 entry packs panels of 64 columns. -/
theorem ogBf16_NR (call : FallbackCall) : call.ogBf16.NR = 64 := by
  unfold FallbackCall.ogBf16 dlpGemmCntxInitBlkszMap withZen3Override
  split_ifs <;> rfl

section Group

variable {call : FallbackCall} {jc ic : Nat}

/-- The threads of a group share their column range. -/
theorem jcRange_eq (valid : ic < call.icWays) :
    call.jcRange jc ic = call.jcRange jc 0 := by
  have positive : 0 < call.icWays := Nat.zero_lt_of_lt valid
  have same : (call.icWays * jc + ic) / call.icWays =
      (call.icWays * jc + 0) / call.icWays := by
    rw [Nat.mul_add_div positive, Nat.mul_add_div positive,
      Nat.div_eq_of_lt valid, Nat.zero_div]
  change dlpThreadTaskRange ⟨_, call.jcWays,
      (call.icWays * jc + ic) / call.icWays⟩ call.n call.ogBf16.NR false =
    dlpThreadTaskRange ⟨call.icWays * jc + 0, call.jcWays,
      (call.icWays * jc + 0) / call.icWays⟩ call.n call.ogBf16.NR false
  rw [same]
  rfl

theorem steps_eq (valid : ic < call.icWays) :
    call.steps jc ic = call.steps jc 0 := by
  unfold FallbackCall.steps
  rw [jcRange_eq valid]

theorem partIndices_lt {start nc0 kc0 width index : Nat}
    (fits : start + width ≤ nc0)
    (member : index ∈ FallbackCall.partIndices start nc0 kc0 width) :
    index < nc0 * kc0 := by
  rcases List.mem_flatMap.mp member with ⟨kr, inRows, inLine⟩
  rcases List.mem_map.mp inLine with ⟨col, inColumns, rfl⟩
  have row : kr < kc0 := List.mem_range.mp inRows
  have column : col < width := List.mem_range.mp inColumns
  calc
    start + (kr * nc0 + col) < nc0 * kr + nc0 := by
      rw [Nat.mul_comm nc0]
      omega
    _ = nc0 * (kr + 1) := (Nat.mul_succ nc0 kr).symm
    _ ≤ nc0 * kc0 := Nat.mul_le_mul_left nc0 row

theorem cvtIndices_lt {start nc0 kc0 width index : Nat}
    (fits : start + width ≤ nc0)
    (member : index ∈ call.cvtIndices start nc0 kc0 width) :
    index < nc0 * (kc0 + kc0 % 2) := by
  rcases List.mem_append.mp member with live | extra
  · exact (partIndices_lt fits live).trans_le
      (Nat.mul_le_mul_left nc0 (Nat.le_add_right _ _))
  · split at extra
    next odd =>
      rcases odd with ⟨-, oddRows, oddColumns⟩
      rw [List.mem_singleton.mp extra, oddRows, Nat.mul_succ]
      have rows : (kc0 - 1) * nc0 + nc0 = nc0 * kc0 := by
        rw [← Nat.succ_mul, Nat.succ_eq_add_one, Nat.sub_add_cancel (by omega),
          Nat.mul_comm]
      omega
    next => cases extra

/-- A part with a fringe of fewer than 16 columns ends its piece. -/
theorem unpackIndices_lt {nc0 kc0 index : Nat} {range : Nat × Nat}
    (part : Part 64 nc0 range) (nonempty : range.1 < range.2)
    (member : index ∈ FallbackCall.unpackIndices range.1 nc0 kc0
      (range.2 - range.1)) :
    index < nc0 * unpackedRows nc0 kc0 := by
  have fits := part_fits part nonempty
  rcases List.mem_append.mp member with whole | fringe
  · exact (partIndices_lt (by omega) whole).trans_le
      (Nat.mul_le_mul_left nc0 (le_unpackedRows nc0 kc0))
  · have below := partIndices_lt (by omega) fringe
    by_cases multiple : nc0 % 16 = 0
    · have aligned : (range.2 - range.1) % 16 = 0 := by
        have starts := part.start_dvd
        rcases part.ends with last | ⟨stops, -⟩ <;> omega
      rcases List.mem_flatMap.mp fringe with ⟨_, -, inLine⟩
      rw [aligned] at inLine
      cases inLine
    · rw [unpackedRows, if_neg multiple]
      exact below

theorem packRange_eq_part (valid : ic < call.icWays) (nc0 : Nat) :
    Part 64 nc0 (call.packRange jc ic nc0) := by
  have positive : 0 < call.icWays := Nat.zero_lt_of_lt valid
  have inWays : (call.threadIc jc ic).workId < (call.threadIc jc ic).nWay :=
    Nat.mod_lt _ positive
  have range := dlpThreadTaskRange_highEdge (call.threadIc jc ic) nc0
    call.ogBf16.NR inWays
  rw [← ogBf16_NR call]
  unfold FallbackCall.packRange
  rw [range]
  exact ⟨highEdgeCut_dvd _ _ inWays, highEdgeCut_ends _ _ inWays⟩

/-- What a thread writes of a piece lies in the rows that the piece
reaches. -/
theorem writes_lt (valid : ic < call.icWays) {step row : Piece} {index : Nat}
    (member : index ∈ call.writes jc ic step row) :
    index < step.width * rowsReached call step.width row.width := by
  unfold FallbackCall.writes at member
  dsimp only at member
  have part := @packRange_eq_part call jc ic valid step.width
  unfold rowsReached
  split at member
  next nonempty =>
    cases tag : call.reordered with
    | true =>
        rw [tag, if_pos rfl] at member
        exact unpackIndices_lt part nonempty.1 member
    | false =>
        rw [tag, if_neg Bool.false_ne_true] at member
        exact cvtIndices_lt (part_fits part nonempty.1) member
  next => cases member

/-- What a thread touches lies in the rows that one of its pieces reaches. -/
theorem exists_piece (valid : ic < call.icWays) {index : Nat}
    (member : index ∈ call.cvtBIndices jc ic) :
    ∃ step, step ∈ call.steps jc 0 ∧
      index < step.width *
        rowsReached call step.width (min call.k call.blksz.KC) := by
  rcases List.mem_flatMap.mp member with ⟨step, inSteps, inRows⟩
  rcases List.mem_flatMap.mp inRows with ⟨row, rowMember, touched⟩
  rw [steps_eq valid] at inSteps
  have bounds := pcLoop_bounds rowMember
  have height : row.width ≤ min call.k call.blksz.KC := by omega
  refine ⟨step, inSteps, lt_of_lt_of_le ?_
    (Nat.mul_le_mul_left step.width
      (rowsReached_mono call step.width height))⟩
  rcases List.mem_append.mp touched with written | read
  · exact writes_lt valid written
  · rcases List.mem_flatMap.mp read with ⟨_, -, inStrips⟩
    rcases List.mem_flatMap.mp inStrips with ⟨jr, inLoop, inStrip⟩
    have strip := pcLoop_bounds inLoop
    exact (partIndices_lt (by omega) inStrip).trans_le
      (Nat.mul_le_mul_left _ (le_rowsReached call _ _))

theorem mem_partIndices_last {start nc0 kc0 width : Nat} (rows : 0 < kc0)
    (columns : 0 < width) (ends : start + width = nc0) :
    nc0 * kc0 - 1 ∈ FallbackCall.partIndices start nc0 kc0 width := by
  refine List.mem_flatMap.mpr ⟨kc0 - 1, List.mem_range.mpr (by omega),
    List.mem_map.mpr ⟨width - 1, List.mem_range.mpr (by omega), ?_⟩⟩
  rcases Nat.exists_eq_add_of_lt rows with ⟨rest, rfl⟩
  rw [Nat.zero_add, Nat.add_sub_cancel, Nat.mul_succ, Nat.mul_comm rest]
  omega

/-- The part at the end of a piece stores the last element of the rows that
the piece reaches. -/
theorem mem_unpackIndices_last {start nc0 kc0 width : Nat} (rows : 0 < kc0)
    (columns : 0 < width) (aligned : 64 ∣ start) (ends : start + width = nc0) :
    nc0 * unpackedRows nc0 kc0 - 1 ∈
      FallbackCall.unpackIndices start nc0 kc0 width := by
  unfold unpackedRows
  by_cases multiple : nc0 % 16 = 0
  · rw [if_pos multiple]
    exact List.mem_append_left _
      (mem_partIndices_last rows (by omega) (by omega))
  · rw [if_neg multiple]
    exact List.mem_append_right _
      (mem_partIndices_last (by omega) (by omega) (by omega))

/-- The last element that a piece of a reordered B reaches is written by some
thread. -/
theorem exists_last (grouped : 0 < call.icWays) (depth : 0 < call.k)
    (kcPositive : 0 < call.blksz.KC) (tag : call.reordered = true)
    {step : Piece} (inSteps : step ∈ call.steps jc 0)
    (nonempty : 0 < step.width) :
    ∃ ic, ic < call.icWays ∧
      step.width * rowsReached call step.width (min call.k call.blksz.KC) -
        1 ∈ call.cvtBIndices jc ic := by
  have last : step.width - 1 < step.width := by omega
  rcases existsUnique_workId call.ogBf16.NR (fun work => work) grouped last
    with ⟨ic, ⟨valid, inPart⟩, -⟩
  have work : call.threadIc jc ic = ⟨ic, call.icWays, ic⟩ := by
    have same : (call.icWays * jc + ic) % call.icWays = ic := by
      rw [Nat.mul_add_mod, Nat.mod_eq_of_lt valid]
    change DlpTaskId.mk ((call.icWays * jc + ic) % call.icWays) _
      ((call.icWays * jc + ic) % call.icWays) = _
    rw [same]
    rfl
  have range : call.packRange jc ic step.width =
      dlpThreadTaskRange ⟨ic, call.icWays, ic⟩ step.width call.ogBf16.NR
        false := by
    rw [FallbackCall.packRange, work]
  rw [← range] at inPart
  rcases inPart with ⟨lower, upper⟩
  have part := @packRange_eq_part call jc ic valid step.width
  have stop := part.stop_le
  rcases pcLoop_first call.blksz.KC depth with ⟨fuel, -, first⟩
  have tall : 0 < min call.k call.blksz.KC := by omega
  refine ⟨ic, valid, List.mem_flatMap.mpr
    ⟨step, (steps_eq valid).symm ▸ inSteps, List.mem_flatMap.mpr
      ⟨⟨0, min call.k call.blksz.KC⟩, ?_, List.mem_append_left _ ?_⟩⟩⟩
  · rw [FallbackCall.rows, first]
    exact List.mem_cons_self
  · unfold FallbackCall.writes rowsReached
    dsimp only
    rw [if_pos (by omega), tag, if_pos rfl, if_pos rfl]
    exact mem_unpackIndices_last tall (by omega) part.start_dvd (by omega)

theorem panelRest_eq {NC start : Nat} (positive : 0 < NC) :
    blockStart start NC + NC - start = NC - start % NC := by
  have split := Nat.div_add_mod start NC
  have small := Nat.mod_lt start positive
  have block : blockStart start NC = NC * (start / NC) := Nat.mul_comm _ _
  omega

theorem jcLoop_cons {n NC minNR jcEnd jc : Nat} (positive : 0 < NC)
    (inside : jc < jcEnd) (fuel : Nat) :
    (jcLoop n NC minNR jcEnd (fuel + 1) jc).map JcStep.piece =
      ⟨jc, min (jcEnd - jc) (blockStart jc NC + NC - jc)⟩ ::
        (jcLoop n NC minNR jcEnd fuel (blockStart jc NC + NC)).map
          JcStep.piece := by
  rw [jcLoop, if_pos inside, List.map_cons]
  simp only [JcStep.piece, panelWidth_eq positive inside]
  rfl

/-- The first step of a range. -/
theorem steps_first (ncPositive : 0 < call.blksz.NC) {first : Piece}
    {rest : List Piece} (listed : call.steps jc 0 = first :: rest) :
    first.start = (call.jcRange jc 0).1 ∧
      first.width =
        if call.reordered then
          min ((call.jcRange jc 0).2 - (call.jcRange jc 0).1)
            (call.blksz.NC - panelOffset call.blksz.NC (call.jcRange jc 0))
        else min ((call.jcRange jc 0).2 - (call.jcRange jc 0).1)
          call.blksz.NC := by
  refine ⟨jcSteps_first listed, ?_⟩
  unfold FallbackCall.steps jcSteps at listed
  cases tag : call.reordered with
  | false =>
      rw [tag] at listed
      rw [pcLoop_head listed, if_neg Bool.false_ne_true]
  | true =>
      rw [tag, if_pos rfl] at listed
      rw [if_pos rfl, panelOffset, ← panelRest_eq ncPositive]
      generalize call.jcRange jc 0 = range at listed ⊢
      rcases range with ⟨start, stop⟩
      dsimp only at listed ⊢
      by_cases inside : start < stop
      · rcases Nat.exists_eq_add_of_lt inside with ⟨more, rfl⟩
        rw [jcLoop_cons ncPositive inside] at listed
        rw [← (List.cons.inj listed).1]
      · rw [jcLoop_eq_nil _ _ _ _ (Nat.le_of_not_lt inside)] at listed
        cases listed

/-- The size, by the first step of the group. -/
theorem cvtBSize_eq (depth : 0 < call.k) {first : Piece} {rest : List Piece}
    (listed : call.steps jc 0 = first :: rest) :
    call.cvtBSize jc =
      dlpMakeMultipleOfN
          (max (min ((call.jcRange jc 0).2 - (call.jcRange jc 0).1)
            call.blksz.NC - first.width) first.width) 16 *
        (min call.k call.blksz.KC + min call.k call.blksz.KC % 2) := by
  rcases pcLoop_first call.blksz.KC depth with ⟨fuel, -, rows⟩
  unfold FallbackCall.cvtBSize
  rw [listed, FallbackCall.rows, rows]
  dsimp only
  rw [jcSteps_first listed]

/-- Every step is the first one or starts behind it. -/
theorem steps_later (ncPositive : 0 < call.blksz.NC) {first step : Piece}
    {rest : List Piece} (listed : call.steps jc 0 = first :: rest)
    (member : step ∈ call.steps jc 0) :
    step = first ∨ first.start + first.width ≤ step.start := by
  have ordered : (call.steps jc 0).Pairwise fun left right =>
      left.start + left.width ≤ right.start := by
    unfold FallbackCall.steps jcSteps
    by_cases reversed : (call.jcRange jc 0).2 < (call.jcRange jc 0).1
    · split
      · rw [jcLoop_eq_nil _ _ _ _ reversed.le]
        exact .nil
      · rw [pcLoop_eq_nil _ reversed.le]
        exact .nil
    · have forward := Nat.le_of_not_lt reversed
      split
      · exact (jcLoop_chain _ _ ncPositive _ (Nat.le_add_left _ _)
          forward).pairwise
      · exact (pcLoop_chain ncPositive _ (Nat.le_add_left _ _)
          forward).pairwise
  rw [listed] at member ordered
  rcases List.mem_cons.mp member with same | later
  · exact Or.inl same
  · exact Or.inr ((List.pairwise_cons.mp ordered).1 step later)

/-- With more than `NC` columns the buffer holds the larger part of a split
panel. -/
theorem nc0Buf_split {range : Nat × Nat} {NC width : Nat}
    (ncPositive : 0 < NC) (long : NC < range.2 - range.1)
    (first : width = min (range.2 - range.1) (NC - panelOffset NC range)) :
    width = NC - panelOffset NC range ∧
      max (min (range.2 - range.1) NC - width) width =
        max (panelOffset NC range) (NC - panelOffset NC range) := by
  have inside : panelOffset NC range < NC := Nat.mod_lt _ ncPositive
  have whole : width = NC - panelOffset NC range := by omega
  refine ⟨whole, ?_⟩
  congr 1
  omega

/-- A later piece starts a panel. -/
theorem jcLoop_start {n NC minNR jcEnd fuel jc : Nat} {step : JcStep}
    (member : step ∈ jcLoop n NC minNR jcEnd fuel jc) :
    step.jc = jc ∨ NC ∣ step.jc := by
  induction fuel generalizing jc with
  | zero => cases member
  | succ fuel ih =>
      unfold jcLoop at member
      by_cases inside : jc < jcEnd
      · rw [if_pos inside] at member
        rcases List.mem_cons.mp member with rfl | later
        · exact Or.inl rfl
        · rcases ih later with same | divides
          · rw [same]
            exact Or.inr (Nat.dvd_add (dvd_blockStart jc NC) dvd_rfl)
          · exact Or.inr divides
      · rw [if_neg inside] at member
        cases member

/-- A piece with a fringe of fewer than 16 columns ends the range inside a
panel. -/
theorem jcLoop_fringe {n NC minNR jcEnd fuel jc : Nat} (positive : 0 < NC)
    (aligned : 64 ∣ NC) (starts : 64 ∣ jc) {step : JcStep}
    (member : step ∈ jcLoop n NC minNR jcEnd fuel jc)
    (fringe : step.nc0 % 16 ≠ 0) :
    jcEnd % 16 ≠ 0 ∧ step.nc0 ≤ jcEnd % NC := by
  have onPanel := (jcLoop_mem positive aligned starts member).1
  have bounds := jcLoop_bounds positive member
  have before := blockStart_le step.jc NC
  have block := aligned.trans (dvd_blockStart step.jc NC)
  have short : jcEnd < blockStart step.jc NC + NC := by omega
  have rest : jcEnd % NC = jcEnd - blockStart step.jc NC := by
    rcases dvd_blockStart step.jc NC with ⟨panel, split⟩
    rw [split] at before short ⊢
    have whole : jcEnd = NC * panel + (jcEnd - NC * panel) := by omega
    rw [whole, Nat.mul_add_mod, Nat.mod_eq_of_lt (by omega)]
    omega
  omega

/-- A range longer than a panel that ends inside a panel has a piece from the
start of that panel. -/
theorem jcLoop_last (n minNR : Nat) {NC jcEnd jc : Nat} (positive : 0 < NC)
    (long : NC < jcEnd - jc) (inside : jcEnd % NC ≠ 0) :
    ∃ step, step ∈ jcLoop n NC minNR jcEnd jcEnd jc ∧
      step.nc0 = jcEnd % NC := by
  have chain := jcLoop_chain n minNR positive jcEnd
    (Nat.le_add_left jcEnd jc) (by omega)
  rcases chain.exists_has (show jc ≤ jcEnd - 1 by omega) (by omega)
    with ⟨_, member, has⟩
  rcases List.mem_map.mp member with ⟨step, inLoop, rfl⟩
  refine ⟨step, inLoop, ?_⟩
  have bounds := jcLoop_bounds positive inLoop
  have before := blockStart_le step.jc NC
  have ends : step.nc0 = jcEnd - step.jc := by
    have upper : jcEnd - 1 < step.jc + step.nc0 := has.2
    omega
  rcases jcLoop_start inLoop with first | ⟨panel, whole⟩
  · omega
  · have split : jcEnd = NC * panel + step.nc0 := by omega
    rw [split, Nat.mul_add_mod] at inside ⊢
    have narrow : step.nc0 ≠ NC := by
      intro same
      rw [same, Nat.mod_self] at inside
      exact inside rfl
    rw [Nat.mod_eq_of_lt (by omega)]

/-- The range of a group starts on a panel of 64 columns. -/
theorem dvd_jcRange (nonempty :
    (call.jcRange jc 0).1 ≠ (call.jcRange jc 0).2) :
    64 ∣ (call.jcRange jc 0).1 := by
  have range := gemmJcRange_aligned (call.thread jc 0) call.n call.ogBf16.NR
  change (call.jcRange jc 0).1 = (call.jcRange jc 0).2 ∨
    call.ogBf16.NR ∣ (call.jcRange jc 0).1 ∧ _ at range
  rcases range with empty | inside
  · exact absurd empty nonempty
  · rw [← ogBf16_NR call]
    exact inside.1

/-- The rows of a later piece of a long range stay inside the allocation. -/
theorem laterPiece_le (ncPositive : 0 < call.blksz.NC)
    (aligned : 64 ∣ call.blksz.NC) (tag : call.reordered = true)
    (later : LaterFit call (call.jcRange jc 0)) {step : Piece}
    (member : step ∈ call.steps jc 0)
    (narrow : step.width ≤ min call.blksz.NC ((call.jcRange jc 0).2 -
      (call.jcRange jc 0).1 - (call.blksz.NC -
        panelOffset call.blksz.NC (call.jcRange jc 0)))) :
    step.width *
        rowsReached call step.width (min call.k call.blksz.KC) ≤
      bufferColumns call.blksz.NC (call.jcRange jc 0) *
        (min call.k call.blksz.KC + min call.k call.blksz.KC % 2) := by
  have bounds := jcSteps_bounds ncPositive member
  rw [rowsReached, tag, if_pos rfl]
  have live := (Nat.mul_le_mul_right (min call.k call.blksz.KC)
    narrow).trans later.1
  unfold unpackedRows
  by_cases fringe : step.width % 16 = 0
  · rw [if_pos fringe]
    exact live
  · rw [if_neg fringe]
    by_cases odd : min call.k call.blksz.KC % 2 = 1
    · unfold FallbackCall.steps jcSteps at member
      rw [tag, if_pos rfl] at member
      rcases List.mem_map.mp member with ⟨jcStep, inLoop, rfl⟩
      have ends := jcLoop_fringe ncPositive aligned
        (dvd_jcRange (by omega)) inLoop fringe
      exact Nat.mul_le_mul_right _
        (ends.2.trans (later.2 odd ends.1))
    · have even : min call.k call.blksz.KC % 2 = 0 := by omega
      rw [even] at live ⊢
      exact live

/-- Fitting pieces stay inside the allocation. -/
theorem suffices_of_fits (depth : 0 < call.k) (ncPositive : 0 < call.blksz.NC)
    (aligned : 64 ∣ call.blksz.NC) (fits : Fits call (call.jcRange jc 0)) :
    call.BufferSuffices jc := by
  intro ic index valid member
  rcases exists_piece valid member with ⟨step, inSteps, below⟩
  refine below.trans_le ?_
  cases listed : call.steps jc 0 with
  | nil =>
      rw [listed] at inSteps
      cases inSteps
  | cons first rest =>
      have size := cvtBSize_eq depth listed
      have head := steps_first ncPositive listed
      have place := steps_later ncPositive listed inSteps
      have bounds := jcSteps_bounds ncPositive inSteps
      rw [size]
      have room (narrow : step.width ≤
          max (min ((call.jcRange jc 0).2 - (call.jcRange jc 0).1)
            call.blksz.NC - first.width) first.width) :
          step.width *
              rowsReached call step.width (min call.k call.blksz.KC) ≤
            dlpMakeMultipleOfN (max (min ((call.jcRange jc 0).2 -
                (call.jcRange jc 0).1) call.blksz.NC - first.width)
              first.width) 16 *
              (min call.k call.blksz.KC + min call.k call.blksz.KC % 2) :=
        Nat.mul_le_mul (narrow.trans (le_roundUp (Nat.succ_pos 15) _))
          (rowsReached_le call step.width _)
      cases tag : call.reordered with
      | false =>
          have width := head.2
          rw [tag, if_neg Bool.false_ne_true] at width
          exact room (le_max_of_le_right (by omega))
      | true =>
          have width := head.2
          rw [tag, if_pos rfl] at width
          rcases place with same | behind
          · exact room (same ▸ le_max_right _ _)
          · by_cases short : (call.jcRange jc 0).2 - (call.jcRange jc 0).1 ≤
              call.blksz.NC
            · exact room (le_max_of_le_left (by omega))
            · rcases nc0Buf_split ncPositive (Nat.lt_of_not_le short) width
                with ⟨whole, larger⟩
              have later := fits.resolve_left (by simp [tag])
                |>.resolve_left short
              rw [larger]
              exact (laterPiece_le ncPositive aligned tag later inSteps
                (by omega)).trans (Nat.mul_le_mul_right _
                  (le_roundUp (Nat.succ_pos 15) _))

/-- A long range that starts inside a panel has a second piece. -/
theorem steps_second (ncPositive : 0 < call.blksz.NC)
    (tag : call.reordered = true)
    (long : call.blksz.NC <
      (call.jcRange jc 0).2 - (call.jcRange jc 0).1) :
    ∃ first second rest, call.steps jc 0 = first :: second :: rest ∧
      second.width = min call.blksz.NC
        ((call.jcRange jc 0).2 - (call.jcRange jc 0).1 -
          (call.blksz.NC - panelOffset call.blksz.NC (call.jcRange jc 0))) := by
  unfold FallbackCall.steps jcSteps panelOffset
  rw [tag, if_pos rfl, ← panelRest_eq ncPositive]
  generalize call.jcRange jc 0 = range at long ⊢
  rcases range with ⟨start, stop⟩
  dsimp only at long ⊢
  have before := blockStart_le start call.blksz.NC
  have within := lt_blockStart_add ncPositive start
  have aligned : blockStart (blockStart start call.blksz.NC + call.blksz.NC)
      call.blksz.NC = blockStart start call.blksz.NC + call.blksz.NC :=
    blockStart_eq (Nat.dvd_add (dvd_blockStart _ _) dvd_rfl) le_rfl
      (Nat.lt_add_of_pos_right ncPositive)
  rcases Nat.exists_eq_add_of_lt
      (show start + 1 < stop by omega) with ⟨fuel, rfl⟩
  have split : start + 1 + fuel + 1 = start + fuel + 1 + 1 := by omega
  rw [split] at long ⊢
  rw [jcLoop_cons ncPositive (by omega), jcLoop_cons ncPositive (by omega)]
  refine ⟨_, _, _, rfl, ?_⟩
  dsimp only
  rw [aligned]
  omega

/-- The allocation of a long range. -/
theorem cvtBSize_long (depth : 0 < call.k) (ncPositive : 0 < call.blksz.NC)
    (aligned : 64 ∣ call.blksz.NC) (tag : call.reordered = true)
    (long : call.blksz.NC <
      (call.jcRange jc 0).2 - (call.jcRange jc 0).1) :
    call.cvtBSize jc = bufferColumns call.blksz.NC (call.jcRange jc 0) *
      (min call.k call.blksz.KC + min call.k call.blksz.KC % 2) := by
  rcases steps_second ncPositive tag long with
    ⟨first, second, rest, listed, -⟩
  have head := (steps_first ncPositive listed).2
  rw [tag, if_pos rfl] at head
  rcases nc0Buf_split ncPositive long head with ⟨-, larger⟩
  have offset : 64 ∣ panelOffset call.blksz.NC (call.jcRange jc 0) :=
    (Nat.dvd_mod_iff aligned).mpr (dvd_jcRange (by omega))
  have whole : 16 ∣ bufferColumns call.blksz.NC (call.jcRange jc 0) := by
    have sixteen : 16 ∣ 64 := by decide
    rcases max_choice (panelOffset call.blksz.NC (call.jcRange jc 0))
      (call.blksz.NC - panelOffset call.blksz.NC (call.jcRange jc 0))
      with left | right
    · rw [bufferColumns, left]
      exact sixteen.trans offset
    · rw [bufferColumns, right]
      exact sixteen.trans (Nat.dvd_sub aligned offset)
  have padded : ∀ value, 16 ∣ value → dlpMakeMultipleOfN value 16 = value :=
    fun value => roundUp_of_dvd (Nat.succ_pos 15)
  rw [cvtBSize_eq depth listed, larger]
  exact congrArg (· * _) (padded _ whole)

/-- In a buffer that suffices the rows that a piece reaches fit. -/
theorem piece_le_of_suffices (depth : 0 < call.k)
    (grouped : 0 < call.icWays) (kcPositive : 0 < call.blksz.KC)
    (ncPositive : 0 < call.blksz.NC) (tag : call.reordered = true)
    (enough : call.BufferSuffices jc) {step : Piece}
    (inSteps : step ∈ call.steps jc 0) :
    step.width *
        unpackedRows step.width (min call.k call.blksz.KC) ≤
      call.cvtBSize jc := by
  have bounds := jcSteps_bounds ncPositive inSteps
  rcases exists_last grouped depth kcPositive tag inSteps bounds.2.1 with
    ⟨ic, valid, member⟩
  have inside := enough ic _ valid member
  rw [rowsReached, tag, if_pos rfl] at inside
  omega

/-- A later piece that does not fit reaches past the allocation. -/
theorem fits_of_suffices (depth : 0 < call.k) (grouped : 0 < call.icWays)
    (kcPositive : 0 < call.blksz.KC) (ncPositive : 0 < call.blksz.NC)
    (aligned : 64 ∣ call.blksz.NC) (enough : call.BufferSuffices jc) :
    Fits call (call.jcRange jc 0) := by
  by_contra overflow
  unfold Fits at overflow
  rw [not_or, not_or, Bool.not_eq_false, Nat.not_le] at overflow
  rcases overflow with ⟨tag, long, wide⟩
  have size := cvtBSize_long depth ncPositive aligned tag long
  have fitting {step : Piece} (inSteps : step ∈ call.steps jc 0) :=
    piece_le_of_suffices depth grouped kcPositive ncPositive tag enough
      inSteps
  rw [size] at fitting
  apply wide
  constructor
  · rcases steps_second ncPositive tag long with
      ⟨first, second, rest, listed, width⟩
    rw [← width]
    refine (Nat.mul_le_mul_left _ (le_unpackedRows _ _)).trans
      (@fitting second ?_)
    rw [listed]
    exact List.mem_cons_of_mem _ List.mem_cons_self
  · intro odd fringe
    have inside : (call.jcRange jc 0).2 % call.blksz.NC % 16 ≠ 0 := by
      rw [Nat.mod_mod_of_dvd _ (Dvd.dvd.trans (by decide) aligned)]
      exact fringe
    rcases jcLoop_last call.n 16 ncPositive long (by omega) with
      ⟨step, inLoop, width⟩
    have inSteps : step.piece ∈ call.steps jc 0 := by
      unfold FallbackCall.steps jcSteps
      rw [tag, if_pos rfl]
      exact List.mem_map_of_mem inLoop
    have room := fitting inSteps
    change step.nc0 * unpackedRows step.nc0 _ ≤ _ at room
    rw [width, unpackedRows, if_neg inside] at room
    exact Nat.le_of_mul_le_mul_right room (by omega)

end Group

/-- An AVX512 processor without BF16 instructions. -/
def vnniProcessor : Processor where
  similarZen6 := false
  similarZen5 := false
  avx512 := true
  avx512vnni := true
  avx512bf16 := false
  thisArch := .genericAvx512Vnni
  enableInstruction := false

/-- Two groups share three `NC` panels of a reordered B. -/
def threePanels (reordered : Bool) : FallbackCall where
  m := 64
  n := 24192
  k := 512
  blksz := dlpGemmCntxInitBlkszMap vnniProcessor .f32f32f32of32
  processor := vnniProcessor
  reordered := reordered
  csB := 1
  icWays := 1
  jcWays := 2

end AoclDlp.Gemm.FallbackBuffer
