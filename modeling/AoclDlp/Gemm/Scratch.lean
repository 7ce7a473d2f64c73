import AoclDlp.Gemm.Rounds

/-!
# Scratch buffers sized on first use

The five-loop drivers allocate the temporary C buffer and the shared pack
buffer in their first iteration and keep them.  Later iterations see other
panel widths, other row strides and other block heights, and stay inside the
first size.

An allocation is measured in elements of the buffer, and in bytes for the int8
pack buffer, which also holds the column sums.
-/

namespace AoclDlp.Gemm.Scratch

open AoclDlp.Config.BlockSize
open AoclDlp.Foundations.Rounding
open AoclDlp.Foundations.Span
open AoclDlp.Gemm.PackProtocol
open AoclDlp.Gemm.Rounds
open AoclDlp.Gemm.Rowvar
open AoclDlp.Layout.Panel
open AoclDlp.Layout.S8s8s32
open AoclDlp.Layout.TeamTiles
open AoclDlp.Threading.TaskRange
open AoclDlp.Threading.WorkPartition

/-! ## The column steps -/

/-- The `jc` steps of a range of columns; a `REORDERED` B cuts them at its
panels. -/
def jcSteps (reordered : Bool) (n NC minNR : Nat) (range : Nat × Nat) :
    List Piece :=
  if reordered then
    (jcLoop n NC minNR range.2 range.2 range.1).map JcStep.piece
  else pcLoop range.2 NC range.2 range.1

/-- A step is no wider than the range and than a panel. -/
theorem jcSteps_bounds {reordered : Bool} {n NC minNR : Nat}
    {range : Nat × Nat} (positive : 0 < NC) {step : Piece}
    (member : step ∈ jcSteps reordered n NC minNR range) :
    range.1 ≤ step.start ∧ 0 < step.width ∧
      step.start + step.width ≤ range.2 ∧ step.width ≤ NC := by
  cases reordered with
  | true =>
      rcases List.mem_map.mp member with ⟨jcStep, inLoop, rfl⟩
      have bounds := jcLoop_bounds positive inLoop
      have before := blockStart_le jcStep.jc NC
      have close := lt_blockStart_add positive jcStep.jc
      change range.1 ≤ jcStep.jc ∧ 0 < jcStep.nc0 ∧
        jcStep.jc + jcStep.nc0 ≤ range.2 ∧ jcStep.nc0 ≤ NC
      omega
  | false =>
      have bounds := pcLoop_bounds member
      omega

theorem pcLoop_head {stop width start : Nat} {first : Piece}
    {rest : List Piece}
    (listed : pcLoop stop width stop start = first :: rest) :
    first = ⟨start, min (stop - start) width⟩ := by
  cases stop with
  | zero => cases listed
  | succ fuel =>
      unfold pcLoop at listed
      by_cases inside : start < fuel + 1
      · rw [if_pos inside] at listed
        exact (List.cons.inj listed).1.symm
      · rw [if_neg inside] at listed
        cases listed

/-- The first step starts where the range starts. -/
theorem jcSteps_first {reordered : Bool} {n NC minNR : Nat}
    {range : Nat × Nat} {first : Piece} {rest : List Piece}
    (steps : jcSteps reordered n NC minNR range = first :: rest) :
    first.start = range.1 := by
  rcases range with ⟨start, stop⟩
  cases stop with
  | zero =>
      cases reordered with
      | true => cases steps
      | false => cases steps
  | succ fuel =>
      cases reordered with
      | true =>
          change (jcLoop n NC minNR (fuel + 1) (fuel + 1) start).map
            JcStep.piece = first :: rest at steps
          unfold jcLoop at steps
          by_cases inside : start < fuel + 1
          · rw [if_pos inside, List.map_cons] at steps
            rw [← (List.cons.inj steps).1]
            rfl
          · rw [if_neg inside] at steps
            cases steps
      | false => rw [pcLoop_head steps]

/-! ## The temporary C buffer -/

/-- The loops of one thread in a five-loop driver. -/
structure FiveLoop where
  m : Nat
  n : Nat
  k : Nat
  blksz : DlpGemmBlockSize
  reordered : Bool
  thread : DlpGemmThrinfo
  deriving DecidableEq, Repr

namespace FiveLoop

variable (call : FiveLoop)

/-- `jc_start` and `jc_end`. -/
def jcRange : Nat × Nat :=
  gemmJcRange call.thread call.n call.blksz.NR

/-- `ic_start` and `ic_end`. -/
def icRange : Nat × Nat :=
  gemmIcRange call.thread call.m call.blksz.MR

/-- The `jc` steps of the thread. -/
def steps : List Piece :=
  jcSteps call.reordered call.n call.blksz.NC dlpGetPackbS8s8s32o32MinNR
    call.jcRange

/-- `mem_scale_c_size_req` of the first `jc` step, in elements; without a
second `pc` step there is no buffer. -/
def tempCSize : Nat :=
  match call.steps with
  | [] => 0
  | first :: _ =>
      if call.blksz.KC < call.k then
        min (call.jcRange.2 - first.start) call.blksz.NC *
          (call.icRange.2 - call.icRange.1)
      else 0

/-- The elements of the temporary C buffer that the kernel calls read and
write, with `rs_c_use = nc0` and the rows counted from `ic_start`. -/
def tempCIndices : List Nat :=
  if call.blksz.KC < call.k then
    call.steps.flatMap fun step =>
      (pcLoop call.k call.blksz.KC call.k 0).flatMap fun _ =>
        (pcLoop call.icRange.2 call.blksz.MC call.icRange.2
            call.icRange.1).flatMap fun ic =>
          (pcLoop step.width call.blksz.NR step.width 0).flatMap fun jr =>
            (List.range ic.width).flatMap fun i =>
              (List.range jr.width).map fun j =>
                step.width * (ic.start - call.icRange.1) + jr.start +
                  (step.width * i + j)
  else []

end FiveLoop

/-- The kernel calls stay inside the temporary C buffer of the first step. -/
theorem tempCIndices_lt {call : FiveLoop} (ncPositive : 0 < call.blksz.NC)
    {index : Nat} (member : index ∈ call.tempCIndices) :
    index < call.tempCSize := by
  unfold FiveLoop.tempCIndices at member
  by_cases buffered : call.blksz.KC < call.k
  · rw [if_pos buffered] at member
    rcases List.mem_flatMap.mp member with ⟨step, inSteps, inRows⟩
    rcases List.mem_flatMap.mp inRows with ⟨_, -, inBlocks⟩
    rcases List.mem_flatMap.mp inBlocks with ⟨ic, icMember, inStrips⟩
    rcases List.mem_flatMap.mp inStrips with ⟨jr, jrMember, inTile⟩
    rcases List.mem_flatMap.mp inTile with ⟨i, iMember, inLine⟩
    rcases List.mem_map.mp inLine with ⟨j, jMember, rfl⟩
    have row : i < ic.width := List.mem_range.mp iMember
    have column : j < jr.width := List.mem_range.mp jMember
    have block := pcLoop_bounds icMember
    have strip := pcLoop_bounds jrMember
    have bounds := jcSteps_bounds ncPositive inSteps
    have size : call.tempCSize =
        min (call.jcRange.2 - call.jcRange.1) call.blksz.NC *
          (call.icRange.2 - call.icRange.1) := by
      unfold FiveLoop.tempCSize
      cases listed : call.steps with
      | nil =>
          rw [listed] at inSteps
          cases inSteps
      | cons first rest =>
          dsimp only
          rw [if_pos buffered, jcSteps_first listed]
    have line : ic.start - call.icRange.1 + i <
        call.icRange.2 - call.icRange.1 := by omega
    have position : jr.start + j < step.width := by omega
    have narrow : step.width ≤
        min (call.jcRange.2 - call.jcRange.1) call.blksz.NC := by omega
    rw [size]
    calc
      _ = step.width * (ic.start - call.icRange.1 + i) + (jr.start + j) := by
        ring
      _ < step.width * (ic.start - call.icRange.1 + i) + step.width :=
        Nat.add_lt_add_left position _
      _ = step.width * (ic.start - call.icRange.1 + i + 1) :=
        (Nat.mul_succ _ _).symm
      _ ≤ min (call.jcRange.2 - call.jcRange.1) call.blksz.NC *
          (call.icRange.2 - call.icRange.1) :=
        Nat.mul_le_mul narrow line
  · rw [if_neg buffered] at member
    cases member

/-! ## The int8 pack buffer -/

/-- `mem_b_size_req` of a round, in bytes. -/
def memBSizeReq (round : PackRound) : Nat :=
  dlpMakeMultipleOfN round.nc0 dlpGetPackbS8s8s32o32MinNR *
      dlpMakeMultipleOfN round.kc0 4 +
    dlpMakeMultipleOfN round.nc0 dlpGetPackbS8s8s32o32MinNR * 4

/-- The bytes that the chief of a thread's group allocates in its first
round. -/
def packBSize (args : GemmArgs) (tid : Nat) : Nat :=
  match args.packRounds (chief args tid) with
  | [] => 0
  | first :: _ => memBSizeReq first

/-- The panel bytes of the shared buffer that an operation reads or writes;
packed widths are padded to the vector length. -/
def TouchesPanel (args : GemmArgs) (op : GemmOp) (address : Nat) : Prop :=
  match op with
  | .pack _ block start stop =>
      Region (s8Blocks args.blksz) (GemmArgs.packTileOf block start stop)
        address
  | .kernel _ call =>
      call.bAddress ≤ address ∧
        address < call.bAddress +
          dlpMakeMultipleOfN call.nr0 16 * dlpMakeMultipleOfN call.kc0 4
  | .publish | .receive | .clear _ _ _ _ | .free => False

/-- The bytes of the column sums that an operation reads or writes. -/
def TouchesSums (op : GemmOp) (address : Nat) : Prop :=
  match op with
  | .clear _ columnSum start stop =>
      columnSum + 4 * start ≤ address ∧ address < columnSum + 4 * stop
  | .pack _ block start stop =>
      block.columnSum + 4 * start ≤ address ∧
        address < block.columnSum +
          4 * (start + dlpMakeMultipleOfN (stop - start) 16)
  | .kernel _ call =>
      call.bColSumVec + 4 * call.bSumOffset ≤ address ∧
        address < call.bColSumVec +
          4 * (call.bSumOffset + dlpMakeMultipleOfN call.nr0 16)
  | .publish | .receive | .free => False

/-- An operation of the round's segments. -/
inductive OfRound (args : GemmArgs) (tid : Nat) (round : PackRound) :
    GemmOp → Prop where
  | clear (number : Nat) : Packs args tid round →
      OfRound args tid round (.clear number round.columnSum
        (args.packRange tid round.nc0).1 (args.packRange tid round.nc0).2)
  | pack (number : Nat) : Packs args tid round →
      OfRound args tid round (.pack number round
        (args.packRange tid round.nc0).1 (args.packRange tid round.nc0).2)
  | kernel (number : Nat) {call : KernelCall} : Calls args tid round call →
      OfRound args tid round (.kernel number call)

/-- An operation that touches the buffer belongs to a round. -/
theorem exists_round (packing : PacksB args) {tid address : Nat}
    {op : GemmOp} {segment : List GemmOp}
    (inProgram : segment ∈ args.program tid) (inSegment : op ∈ segment)
    (touches : TouchesPanel args op address ∨ TouchesSums op address) :
    ∃ round, round ∈ args.packRounds tid ∧ OfRound args tid round op := by
  rcases List.mem_iff_getElem?.mp inProgram with ⟨index, found⟩
  have placed := (mem_program_iff packing).mp ⟨segment, found, inSegment⟩
  cases placed with
  | publish _ _ => exact absurd touches (or_self_iff.not.mpr id)
  | receive _ => exact absurd touches (or_self_iff.not.mpr id)
  | @clear number round atRound packs _ =>
      exact ⟨round, List.mem_of_getElem? atRound, .clear number packs⟩
  | @pack number round atRound packs =>
      exact ⟨round, List.mem_of_getElem? atRound, .pack number packs⟩
  | @kernel number round call atRound calls =>
      exact ⟨round, List.mem_of_getElem? atRound, .kernel number calls⟩
  | free _ => exact absurd touches (or_self_iff.not.mpr id)

/-- A padded part of a panel ends inside the padded panel. -/
theorem paddedPart_le {start width nc0 : Nat} (aligned : 16 ∣ start)
    (fits : start + width ≤ nc0) :
    start + dlpMakeMultipleOfN width 16 ≤ dlpMakeMultipleOfN nc0 16 := by
  have whole : start + roundUp width 16 = roundUp (start + width) 16 :=
    (roundUp_add_of_dvd (Nat.succ_pos 15) aligned width).symm
  calc
    start + dlpMakeMultipleOfN width 16 = roundUp (start + width) 16 := whole
    _ ≤ roundUp nc0 16 :=
      roundUp_le_of_dvd (Nat.succ_pos 15) (dvd_roundUp nc0 16)
        (fits.trans (le_roundUp (Nat.succ_pos 15) nc0))

section Pack

variable {args : GemmArgs} {tid : Nat} {round : PackRound} {op : GemmOp}
    {address : Nat}

/-- What a part of a round's panel occupies ends inside the panel. -/
theorem panelPart_le (shape : RoundShape args round) {start width : Nat}
    (aligned : 16 ∣ start) (fits : start + width ≤ round.nc0) :
    start * dlpMakeMultipleOfN round.kc0 4 +
        dlpMakeMultipleOfN width 16 * dlpMakeMultipleOfN round.kc0 4 ≤
      round.columnSum := by
  have lower : round.kc0 ≤ min args.k args.blksz.KC := by
    rw [shape.kc0_eq]
    omega
  have height : dlpMakeMultipleOfN round.kc0 4 ≤
      dlpMakeMultipleOfN (min args.k args.blksz.KC) 4 :=
    roundUp_le_of_dvd (Nat.succ_pos 3) (dvd_roundUp _ 4)
      (lower.trans (le_roundUp (Nat.succ_pos 3) _))
  rw [shape.columnSum, ← Nat.add_mul]
  exact Nat.mul_le_mul (paddedPart_le aligned fits) height

/-- The columns of an operation of a round. -/
theorem part_fits {NR nc0 : Nat} {range : Nat × Nat}
    (part : Part NR nc0 range) (nonempty : range.1 < range.2) :
    range.1 + (range.2 - range.1) ≤ nc0 :=
  (Nat.add_sub_of_le nonempty.le).trans_le part.stop_le

/-- The panel bytes of a round end before the column sums of its `jc`
step. -/
theorem OfRound.panel_lt (wide : 16 ∣ args.blksz.NR)
    (shape : RoundShape args round) (inTeam : tid < args.team.count)
    (ofRound : OfRound args tid round op)
    (touches : TouchesPanel args op address) :
    address < round.columnSum := by
  cases ofRound with
  | clear number packs => exact touches.elim
  | pack number packs =>
      have part := packRange_part inTeam round.nc0
      have bounds := touches.2
      change address < (args.packRange tid round.nc0).1 *
          dlpMakeMultipleOfN round.kc0 4 +
        dlpMakeMultipleOfN ((args.packRange tid round.nc0).2 -
          (args.packRange tid round.nc0).1) 16 *
          dlpMakeMultipleOfN round.kc0 4 at bounds
      exact bounds.trans_le (panelPart_le shape
        (wide.trans part.start_dvd) (part_fits part packs.1))
  | kernel number calls =>
      rcases calls with ⟨ic, -, inLoop⟩
      rcases jrLoop_mem (dvd_zero _) inLoop with ⟨aligned, inside, equal⟩
      have bounds := touches.2
      rw [equal] at bounds
      change _ < 0 + _ * dlpMakeMultipleOfN round.kc0 4 +
        dlpMakeMultipleOfN (min (round.nc0 - _) args.blksz.NR) 16 *
          dlpMakeMultipleOfN round.kc0 4 at bounds
      rw [Nat.zero_add] at bounds
      change _ < round.nc0 at inside
      exact bounds.trans_le (panelPart_le shape (wide.trans aligned)
        (by omega))

/-- The column sums of a round end behind one word for each padded
column. -/
theorem OfRound.sums_lt (wide : 16 ∣ args.blksz.NR)
    (inTeam : tid < args.team.count) (ofRound : OfRound args tid round op)
    (touches : TouchesSums op address) :
    round.columnSum ≤ address ∧
      address < round.columnSum + 4 * dlpMakeMultipleOfN round.nc0 16 := by
  cases ofRound with
  | clear number packs =>
      have part := packRange_part inTeam round.nc0
      have stop := part.stop_le
      have padded : round.nc0 ≤ dlpMakeMultipleOfN round.nc0 16 :=
        le_roundUp (Nat.succ_pos 15) round.nc0
      rcases touches with ⟨lower, upper⟩
      omega
  | pack number packs =>
      have part := packRange_part inTeam round.nc0
      have padded := paddedPart_le (wide.trans part.start_dvd)
        (part_fits part packs.1)
      rcases touches with ⟨lower, upper⟩
      omega
  | @kernel number call calls =>
      rcases calls with ⟨ic, -, inLoop⟩
      rcases jrLoop_mem (dvd_zero _) inLoop with ⟨aligned, inside, equal⟩
      change call.jr < round.nc0 at inside
      have padded := paddedPart_le (wide.trans aligned)
        (show call.jr + min (round.nc0 - call.jr) args.blksz.NR ≤ round.nc0
          by omega)
      rcases touches with ⟨lower, upper⟩
      rw [equal] at lower upper
      dsimp only at lower upper padded
      omega

/-- A group's chief allocates for the widest panel and the tallest block. -/
theorem packBSize_eq (inTeam : tid < args.team.count)
    (kcPositive : 0 < args.blksz.KC) (member : round ∈ args.packRounds tid) :
    ∃ first, packBSize args tid = memBSizeReq first ∧
      round.nc0 ≤ first.nc0 ∧ first.kc0 = min args.k args.blksz.KC := by
  unfold packBSize
  rw [packRounds_eq (chief_mate inTeam)]
  rw [packRounds_eq_map kcPositive] at member ⊢
  rcases List.mem_flatMap.mp member with ⟨step, inSteps, inRows⟩
  rcases List.mem_map.mp inRows with ⟨row, rowMember, rfl⟩
  have bounds := pcLoop_bounds inSteps
  generalize gemmJcRange (args.thread tid) args.n args.blksz.NR = range
    at inSteps bounds ⊢
  cases columns : pcLoop range.2 args.blksz.NC range.2 range.1 with
  | nil =>
      rw [columns] at inSteps
      cases inSteps
  | cons firstStep laterSteps =>
      cases rows : pcLoop args.k args.blksz.KC args.k 0 with
      | nil =>
          rw [rows] at rowMember
          cases rowMember
      | cons firstRow laterRows =>
          refine ⟨roundAt args firstStep firstRow, rfl, ?_, ?_⟩
          · change step.width ≤ firstStep.width
            rw [pcLoop_head columns]
            dsimp only
            omega
          · change firstRow.width = _
            rw [pcLoop_head rows, Nat.sub_zero]

/-- Every byte of the buffer that a round touches was allocated. -/
theorem OfRound.lt_packBSize (wide : 16 ∣ args.blksz.NR)
    (ncPositive : 0 < args.blksz.NC) (kcPositive : 0 < args.blksz.KC)
    (inTeam : tid < args.team.count) (member : round ∈ args.packRounds tid)
    (ofRound : OfRound args tid round op)
    (touches : TouchesPanel args op address ∨ TouchesSums op address) :
    address < packBSize args tid := by
  have shape := roundShape ncPositive kcPositive member
  have bounded : address <
      round.columnSum + 4 * dlpMakeMultipleOfN round.nc0 16 := by
    rcases touches with panel | sums
    · exact (ofRound.panel_lt wide shape inTeam panel).trans_le
        (Nat.le_add_right _ _)
    · exact (ofRound.sums_lt wide inTeam sums).2
  rcases packBSize_eq inTeam kcPositive member with
    ⟨first, size, narrow, height⟩
  have padded := paddedPart_le (dvd_zero 16)
    ((Nat.zero_add round.nc0).trans_le narrow)
  rw [Nat.zero_add] at padded
  rw [size, memBSizeReq, height]
  calc
    address < round.columnSum + 4 * dlpMakeMultipleOfN round.nc0 16 := bounded
    _ = dlpMakeMultipleOfN round.nc0 16 *
          dlpMakeMultipleOfN (min args.k args.blksz.KC) 4 +
        dlpMakeMultipleOfN round.nc0 16 * 4 := by
      rw [shape.columnSum, Nat.mul_comm 4]
    _ ≤ _ := Nat.add_le_add (Nat.mul_le_mul_right _ padded)
      (Nat.mul_le_mul_right _ padded)

/-- The rounds of one `jc` step agree on the place of the column sums. -/
theorem columnSum_eq (ncPositive : 0 < args.blksz.NC)
    (kcPositive : 0 < args.blksz.KC) {later : PackRound}
    (member : round ∈ args.packRounds tid)
    (laterMember : later ∈ args.packRounds tid) (sameJc : later.jc = round.jc) :
    later.columnSum = round.columnSum := by
  have width (current : PackRound) (inRounds : current ∈ args.packRounds tid) :
      current.nc0 = min ((gemmJcRange (args.thread tid) args.n
        args.blksz.NR).2 - current.jc) args.blksz.NC := by
    rw [packRounds_eq_map kcPositive] at inRounds
    rcases List.mem_flatMap.mp inRounds with ⟨step, inSteps, inRows⟩
    rcases List.mem_map.mp inRows with ⟨row, -, rfl⟩
    exact (pcLoop_bounds inSteps).2.2
  rw [(roundShape ncPositive kcPositive member).columnSum,
    (roundShape ncPositive kcPositive laterMember).columnSum,
    width round member, width later laterMember, sameJc]

end Pack

/-! ## The bfloat16 pack buffer -/

namespace FiveLoop

variable (call : FiveLoop)

/-- `thread_ic`. -/
def threadIc : DlpTaskId :=
  (dlpGemmGenDlpTaskIds (some call.thread)).2

/-- The loops of the chief of the thread's group. -/
def chief : FiveLoop :=
  { call with
    thread :=
      { call.thread with
        tid := call.thread.icWays * (call.thread.tid / call.thread.icWays) } }

/-- `mem_b_size_req` of the first iteration, in elements. -/
def packBSize : Nat :=
  match call.steps, pcLoop call.k call.blksz.KC call.k 0 with
  | first :: _, row :: _ =>
      dlpMakeMultipleOfN first.width 16 * (row.width + row.width % 2)
  | _, _ => 0

/-- The elements of `pack_b_buffer_bf16` that a thread packs and its kernel
calls read. -/
def packBPieces : List Piece :=
  if call.reordered then []
  else
    call.steps.flatMap fun step =>
      (pcLoop call.k call.blksz.KC call.k 0).flatMap fun row =>
        let kc0Updated := row.width + row.width % 2
        let packb := dlpThreadTaskRange call.threadIc step.width
          call.blksz.NR false
        (if packb.1 < packb.2 ∧ packb.1 < step.start + step.width then
          [⟨packb.1 * kc0Updated,
            dlpMakeMultipleOfN (packb.2 - packb.1) 16 * kc0Updated⟩]
        else []) ++
          (pcLoop call.icRange.2 call.blksz.MC call.icRange.2
              call.icRange.1).flatMap fun _ =>
            (pcLoop step.width call.blksz.NR step.width 0).map fun jr =>
              ⟨jr.start * kc0Updated,
                dlpMakeMultipleOfN jr.width 16 * kc0Updated⟩

variable {call}

theorem chief_steps (grouped : 0 < call.thread.icWays) :
    call.chief.steps = call.steps := by
  have same : call.thread.icWays * (call.thread.tid / call.thread.icWays) /
      call.thread.icWays = call.thread.tid / call.thread.icWays :=
    Nat.mul_div_cancel_left _ grouped
  have range : call.chief.jcRange = call.jcRange := by
    change dlpThreadTaskRange ⟨_, call.thread.jcWays,
        call.thread.icWays * (call.thread.tid / call.thread.icWays) /
          call.thread.icWays⟩ call.n call.blksz.NR false =
      dlpThreadTaskRange ⟨call.thread.tid, call.thread.jcWays,
        call.thread.tid / call.thread.icWays⟩ call.n call.blksz.NR false
    rw [same]
    rfl
  unfold steps
  rw [range]
  rfl

/-- A part of a panel ends inside the first allocation. -/
theorem piece_le_packBSize (ncPositive : 0 < call.blksz.NC) {step row : Piece}
    (inSteps : step ∈ call.steps)
    (inRows : row ∈ pcLoop call.k call.blksz.KC call.k 0)
    (packed : call.reordered = false) {start width : Nat}
    (aligned : 16 ∣ start) (fits : start + width ≤ step.width) :
    start * (row.width + row.width % 2) +
        dlpMakeMultipleOfN width 16 * (row.width + row.width % 2) ≤
      call.packBSize := by
  have bounds := jcSteps_bounds ncPositive inSteps
  have rowBounds := pcLoop_bounds inRows
  unfold packBSize
  cases columns : call.steps with
  | nil =>
      rw [columns] at inSteps
      cases inSteps
  | cons first later =>
      cases rows : pcLoop call.k call.blksz.KC call.k 0 with
      | nil =>
          rw [rows] at inRows
          cases inRows
      | cons firstRow laterRows =>
          have firstWidth : first.width =
              min (call.jcRange.2 - call.jcRange.1) call.blksz.NC := by
            unfold steps jcSteps at columns
            rw [packed] at columns
            rw [pcLoop_head columns]
          have firstHeight : firstRow.width = min call.k call.blksz.KC := by
            rw [pcLoop_head rows, Nat.sub_zero]
          have lower : row.width ≤ firstRow.width := by omega
          have height : row.width + row.width % 2 ≤
              firstRow.width + firstRow.width % 2 := by omega
          dsimp only
          rw [← Nat.add_mul]
          refine Nat.mul_le_mul (paddedPart_le aligned ?_) height
          omega

end FiveLoop

/-- Every piece of the bfloat16 pack buffer lies inside the chief's
allocation. -/
theorem packBPieces_le {call : FiveLoop} (wide : 16 ∣ call.blksz.NR)
    (ncPositive : 0 < call.blksz.NC) (grouped : 0 < call.thread.icWays)
    {piece : Piece} (member : piece ∈ call.packBPieces) :
    piece.start + piece.width ≤ call.chief.packBSize := by
  have size : call.chief.packBSize = call.packBSize := by
    unfold FiveLoop.packBSize
    rw [FiveLoop.chief_steps grouped]
    rfl
  unfold FiveLoop.packBPieces at member
  cases tag : call.reordered with
  | true =>
      rw [tag, if_pos rfl] at member
      cases member
  | false =>
      rw [tag, if_neg Bool.false_ne_true] at member
      rcases List.mem_flatMap.mp member with ⟨step, inSteps, inColumns⟩
      rcases List.mem_flatMap.mp inColumns with ⟨row, inRows, inRound⟩
      rw [size]
      rcases List.mem_append.mp inRound with packs | calls
      · split at packs
        next nonempty =>
          rw [List.mem_singleton.mp packs]
          have valid : call.threadIc.workId < call.threadIc.nWay :=
            Nat.mod_lt _ grouped
          have range := dlpThreadTaskRange_highEdge call.threadIc step.width
            call.blksz.NR valid
          have part : Part call.blksz.NR step.width
              (dlpThreadTaskRange call.threadIc step.width call.blksz.NR
                false) := by
            rw [range]
            exact ⟨highEdgeCut_dvd _ _ valid, highEdgeCut_ends _ _ valid⟩
          exact FiveLoop.piece_le_packBSize ncPositive inSteps inRows tag
            (wide.trans part.start_dvd) (part_fits part nonempty.1)
        next => cases packs
      · rcases List.mem_flatMap.mp calls with ⟨_, -, inStrips⟩
        rcases List.mem_map.mp inStrips with ⟨jr, inLoop, rfl⟩
        have strip := pcLoop_mem (dvd_zero call.blksz.NR) inLoop
        exact FiveLoop.piece_le_packBSize ncPositive inSteps inRows tag
          (wide.trans strip.1) (by omega)

/-! ## All scratch buffers -/

/-- The blockings of the five-loop drivers. -/
structure ScratchLegal (blksz : DlpGemmBlockSize) : Prop where
  MC_pos : 0 < blksz.MC
  NC_pos : 0 < blksz.NC
  KC_pos : 0 < blksz.KC
  NC_dvd : blksz.NR ∣ blksz.NC
  NR_dvd : 16 ∣ blksz.NR

/-- A call of four threads with split panels and several blocks. -/
def narrowLoops : FiveLoop :=
  ⟨20, 200, 20, narrowBlksz, true, ⟨4, 2, 2, 2⟩⟩

end AoclDlp.Gemm.Scratch
