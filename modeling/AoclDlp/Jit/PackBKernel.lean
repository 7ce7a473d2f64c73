import AoclDlp.Jit.PackBSums
import AoclDlp.Layout.Chunk

/-!
# A generated pack kernel

The looped kernel packs all full panels of its call, a kernel without the loop
packs one.  Between two panels the memory is the one before the call under the
packed bytes and the column sums of the panels before; a panel only reads what
lies outside both areas.
-/

namespace AoclDlp.Jit.PackBKernel

open AoclDlp.Foundations.Assembly
open AoclDlp.Foundations.Avx512
open AoclDlp.Foundations.Lanes
open AoclDlp.Foundations.Regions
open AoclDlp.Jit.PackBGenerator
open AoclDlp.Jit.PackBGenerator.PackBGeneratorParams
open AoclDlp.Jit.PackBPanel
open AoclDlp.Jit.PackBQuad
open AoclDlp.Jit.PackBSums
open AoclDlp.Jit.S8Generator (Reg64 ptr regBytes)
open AoclDlp.Layout.Chunk (dlpReorderElemOffset elemOffset_lt
  elemOffset_low_lt)

/-! ## What a call writes -/

/-- Column sums behind a call. -/
def summed (source : Source) (words : Nat → BitVec 32) (j : Nat) :
    BitVec 32 :=
  words j + columnSum source j

/-- The bytes of the panels of a call. -/
def kernelImage (params : PackBGeneratorParams) (source : Source)
    (index : Nat) : BitVec 8 :=
  let panelBytes := params.NR * source.kcUpdated
  source.panelImage params.NR (params.NR * (index / panelBytes))
    (index % panelBytes)

/-- The columns of the first panels. -/
def columns (params : PackBGeneratorParams) (source : Source)
    (panels : Nat) : Nat :=
  min (params.NR * panels) source.live

/-- What the first panels of a call write. -/
def kernelWrites (params : PackBGeneratorParams) (source : Source)
    (words : Nat → BitVec 32) (dst colSum : BitVec 64) (panels : Nat) :
    Writes :=
  areas dst colSum params.accColSum (params.NR * source.kcUpdated * panels)
    (columns params source panels) (kernelImage params source)
    (summed source words)

/-- What a call reads and writes. -/
structure CallData (params : PackBGeneratorParams) (source : Source)
    (panels : Nat) (words : Nat → BitVec 32) (src dst colSum : BitVec 64)
    (memory : Memory) : Prop where
  small : source.k < 2 ^ 62
  width : if params.useMask then panels = 1 ∧ source.live ≤ blockN
    else source.live = params.NR * panels
  stored : ∀ p < source.k, ∀ j < source.live,
    memory (offset src (p * source.ldb + j)) = some (source.element p j) ∧
      Outside dst (params.NR * source.kcUpdated * panels)
        (offset src (p * source.ldb + j)) ∧
      (params.accColSum = true → Outside colSum (4 * source.live)
        (offset src (p * source.ldb + j)))
  mapped : Mapped memory dst (params.NR * source.kcUpdated * panels)
  extent : params.NR * source.kcUpdated * panels ≤ 2 ^ 64
  sums : params.accColSum = true →
    WordsAt memory colSum source.live words ∧ 4 * source.live ≤ 2 ^ 64 ∧
      Apart dst colSum (params.NR * source.kcUpdated * panels) source.live

section Writes

variable {params : PackBGeneratorParams} {source : Source}
variable {words : Nat → BitVec 32} {src dst colSum : BitVec 64}
variable {panels panel : Nat} {memory : Memory}

/-- The bytes of one panel among those of the call. -/
theorem kernelImage_panel (panel : Nat) {index : Nat}
    (inside : index < params.NR * source.kcUpdated) :
    kernelImage params source (params.NR * source.kcUpdated * panel + index) =
      source.panelImage params.NR (params.NR * panel) index := by
  have positive : 0 < params.NR * source.kcUpdated := by omega
  have number : (params.NR * source.kcUpdated * panel + index) /
      (params.NR * source.kcUpdated) = panel := by
    rw [Nat.mul_add_div positive, Nat.div_eq_of_lt inside, Nat.add_zero]
  have place : (params.NR * source.kcUpdated * panel + index) %
      (params.NR * source.kcUpdated) = index := by
    rw [Nat.mul_add_mod, Nat.mod_eq_of_lt inside]
  simp only [kernelImage, number, place]

/-- The columns of the next panel. -/
theorem CallData.next_columns
    (data : CallData params source panels words src dst colSum memory)
    (legal : params.accepted = true) (inside : panel < panels) :
    columns params source panel = params.NR * panel ∧
      columns params source (panel + 1) =
        params.NR * panel + panelWords params source.live := by
  have width := data.width
  have shape := accepted_iff.mp legal
  have before := Nat.mul_le_mul_left params.NR (Nat.le_of_lt inside)
  have next : params.NR * (panel + 1) ≤ params.NR * panels :=
    Nat.mul_le_mul_left params.NR inside
  have step : params.NR * (panel + 1) = params.NR * panel + params.NR :=
    Nat.mul_succ params.NR panel
  unfold columns panelWords
  unfold blockN at width
  split_ifs at width ⊢ with masked
  · rcases width with ⟨rfl, narrow⟩
    have first : panel = 0 := by omega
    have wide := shape.2.2.2 masked
    rw [first, wide]
    omega
  · omega

/-- The bytes of the next panel. -/
theorem bytes_fit (params : PackBGeneratorParams) (source : Source)
    {panel panels : Nat} (inside : panel < panels) :
    params.NR * source.kcUpdated * panel + params.NR * source.kcUpdated ≤
      params.NR * source.kcUpdated * panels := by
  rw [← Nat.mul_succ]
  exact Nat.mul_le_mul_left _ inside

/-- The writes of the next panel. -/
theorem kernelWrites_succ
    (data : CallData params source panels words src dst colSum memory)
    (legal : params.accepted = true) (inside : panel < panels) :
    ((kernelWrites params source words dst colSum panel).andThen
      (region (offset dst (params.NR * source.kcUpdated * panel))
        (upTo (params.NR * source.kcUpdated))
        (source.panelImage params.NR (params.NR * panel)))).andThen
      (sumWrites params source (params.NR * panel)
        (fun j => words (params.NR * panel + j))
        (offset colSum (4 * (params.NR * panel)))) =
      kernelWrites params source words dst colSum (panel + 1) := by
  rcases data.next_columns legal inside with ⟨before, after⟩
  have fits := bytes_fit params source inside
  have reach : columns params source (panel + 1) ≤ source.live :=
    Nat.min_le_right _ _
  have apart (sums : params.accColSum = true) :
      Apart (offset dst (params.NR * source.kcUpdated * panel)) colSum
        (params.NR * source.kcUpdated) (params.NR * panel) :=
    (data.sums sums).2.2.part fits (by omega)
  rw [Writes.andThen_assoc]
  unfold kernelWrites
  rw [after, before, Nat.mul_succ]
  refine areas_append (fits.trans data.extent) (fun sums => ?_) apart
    (fun index below => (kernelImage_panel panel below).symm)
    (fun _ _ => rfl)
  have room := (data.sums sums).2.1
  omega

end Writes

/-! ## Panels of a call -/

/-- The registers that all panels of a call use. -/
structure CallRegs (params : PackBGeneratorParams) (source : Source)
    (state : State) : Prop where
  stride : state.gpr regLdbBytes = BitVec.ofNat 64 source.ldb
  depth : state.gpr regK = BitVec.ofNat 64 source.k
  whole : state.gpr regKFull = BitVec.ofNat 64 (source.k / 4 * 4)
  mask : params.useMask = true → ∀ index < blockN,
    (state.opmask maskLt16).getLsbD index = decide (index < source.live)
  constants : Constants params state

section Panels

variable {params : PackBGeneratorParams} {source : Source}
variable {words : Nat → BitVec 32} {src dst colSum : BitVec 64}
variable {panels panel : Nat} {memory : Memory} {state : State}

/-- A byte that panels only read. -/
theorem CallData.unwritten
    (data : CallData params source panels words src dst colSum memory)
    (inside : panel ≤ panels) {p j : Nat} (row : p < source.k)
    (column : j < source.live) :
    overlay (kernelWrites params source words dst colSum panel) memory
        (offset src (p * source.ldb + j)) = some (source.element p j) := by
  rcases data.stored p row j column with ⟨byte, packed, sums⟩
  have reach : columns params source panel ≤ source.live :=
    Nat.min_le_right _ _
  rw [kernelWrites, overlay_miss (areas_miss
    (packed.mono (Nat.mul_le_mul_left _ inside)) fun accColSum =>
      (sums accColSum).mono (Nat.mul_le_mul_left 4 reach)), byte]

/-- What the next panel needs. -/
theorem CallData.panelData
    (data : CallData params source panels words src dst colSum memory)
    (inside : panel < panels) (regs : CallRegs params source state)
    (written : state.memory =
      overlay (kernelWrites params source words dst colSum panel) memory) :
    PanelData params source (params.NR * panel)
      (offset src (params.NR * panel))
      (offset dst (params.NR * source.kcUpdated * panel)) state where
  stride := regs.stride
  depth := regs.depth
  whole := regs.whole
  small := data.small
  width := by
    have width := data.width
    have step : params.NR * (panel + 1) ≤ params.NR * panels :=
      Nat.mul_le_mul_left params.NR inside
    rw [Nat.mul_succ] at step
    split_ifs at width ⊢ with masked
    · rcases width with ⟨rfl, narrow⟩
      have first : panel = 0 := by omega
      rw [first]
      exact ⟨Nat.mul_zero _, narrow, regs.mask masked⟩
    · omega
  stored p row j column := by
    have place : offset (offset src (params.NR * panel))
        (p * source.ldb + j) =
          offset src (p * source.ldb + (params.NR * panel + j)) := by
      rw [offset_offset]
      congr 1
      omega
    rw [place, written]
    exact ⟨data.unwritten (Nat.le_of_lt inside) row column,
      (data.stored p row _ column).2.1.part (bytes_fit params source inside)⟩
  mapped index below := by
    have fits := bytes_fit params source inside
    rw [written, offset_offset]
    exact overlay_isSome (data.mapped _ (by omega)) _
  extent := by
    have fits := bytes_fit params source inside
    have extent := data.extent
    omega
  constants := regs.constants

/-- The words that the next panel adds to. -/
theorem CallData.sumData
    (data : CallData params source panels words src dst colSum memory)
    (legal : params.accepted = true) (inside : panel < panels)
    (sums : params.accColSum = true)
    (written : state.memory =
      overlay (kernelWrites params source words dst colSum panel) memory) :
    SumData params source (fun j => words (params.NR * panel + j))
      (offset colSum (4 * (params.NR * panel)))
      (offset dst (params.NR * source.kcUpdated * panel))
      state.memory := by
  rcases data.sums sums with ⟨stored, room, apart⟩
  rcases data.next_columns legal inside with ⟨before, after⟩
  have reach : columns params source (panel + 1) ≤ source.live :=
    Nat.min_le_right _ _
  have fits := bytes_fit params source inside
  have word {index : Nat}
      (below : index < 4 * panelWords params source.live) :
      4 * (params.NR * panel) + index < 4 * source.live := by omega
  refine ⟨fun index below => ?_, fun index below => ?_, by omega⟩
  · have packed := (apart _ (word below)).mono
      (Nat.mul_le_mul_left (params.NR * source.kcUpdated)
        (Nat.le_of_lt inside))
    have later : Outside colSum (4 * columns params source panel)
        (offset colSum (4 * (params.NR * panel) + index)) := by
      rw [before, Outside, offset_index colSum (by omega)]
      omega
    rw [written, kernelWrites, offset_offset,
      overlay_miss (areas_miss packed fun _ => later),
      stored _ (word below), wordBytes_shift]
  · rw [offset_offset]
    exact (apart _ (word below)).part fits

/-- Behind the packed bytes and the column sums of the next panel. -/
structure PanelPacked (params : PackBGeneratorParams) (source : Source)
    (words : Nat → BitVec 32) (dst colSum : BitVec 64) (memory : Memory)
    (panel : Nat) (entry state : State) : Prop
    extends CallRegs params source state where
  gpr : ∀ register ∉ panelRegs, state.gpr register = entry.gpr register
  field : state.field = entry.field
  written : state.memory =
    overlay (kernelWrites params source words dst colSum (panel + 1)) memory

/-- One panel of a call. -/
theorem callPanel_triple
    (data : CallData params source panels words src dst colSum memory)
    (legal : params.accepted = true) (inside : panel < panels)
    (regs : CallRegs params source state)
    (written : state.memory =
      overlay (kernelWrites params source words dst colSum panel) memory)
    (sums : params.accColSum = true →
      state.gpr regColSum = offset colSum (4 * (params.NR * panel)))
    {srcReg dstReg : Reg64} (apart : dstReg ≠ regSrcRow)
    (sourceAt : state.gpr srcReg = offset src (params.NR * panel))
    (targetAt : state.gpr dstReg =
      offset dst (params.NR * source.kcUpdated * panel)) :
    Triple semantics (fun entry => entry = state)
      (params.panel srcReg dstReg)
      (PanelPacked params source words dst colSum memory panel state) := by
  have reads : PanelData params source (params.NR * panel)
      (state.gpr srcReg) (state.gpr dstReg) state := by
    rw [sourceAt, targetAt]
    exact data.panelData inside regs written
  have adds : params.accColSum = true →
      SumData params source (fun j => words (params.NR * panel + j))
        (state.gpr regColSum) (state.gpr dstReg) state.memory := by
    intro accColSum
    rw [sums accColSum, targetAt]
    exact data.sumData legal inside accColSum written
  refine (panel_triple legal apart reads adds).weaken
    (fun _ same => same) fun after done => ?_
  refine { gpr := done.gpr, field := done.field, constants := done.constants,
           stride := ?_, depth := ?_, whole := ?_, mask := ?_, written := ?_ }
  · exact (done.gpr regLdbBytes (by decide)).trans regs.stride
  · exact (done.gpr regK (by decide)).trans regs.depth
  · exact (done.gpr regKFull (by decide)).trans regs.whole
  · rw [done.opmask]
    exact regs.mask
  · rw [done.memory, targetAt, written, overlay_overlay, overlay_overlay,
      ← kernelWrites_succ data legal inside, Writes.andThen_assoc]
    unfold sumWrites
    split_ifs with accColSum
    · rw [sums accColSum]
    · rfl

/-! ## The loop over panels -/

/-- At the top of the loop over panels. -/
structure AtLoop (params : PackBGeneratorParams) (source : Source)
    (words : Nat → BitVec 32) (src dst colSum : BitVec 64)
    (memory : Memory) (field : PackBParams → BitVec 64) (panel : Nat)
    (state : State) : Prop extends CallRegs params source state where
  srcBase : state.gpr regSrcBase = offset src (params.NR * panel)
  dstBase : state.gpr regDstBase =
    offset dst (params.NR * source.kcUpdated * panel)
  srcEnd : state.gpr regSrcEnd = offset src source.live
  panelStride : state.gpr regDstPanelStride =
    BitVec.ofNat 64 (params.NR * source.kcUpdated)
  sums : params.accColSum = true →
    state.gpr regColSum = offset colSum (4 * (params.NR * panel))
  field : state.field = field
  written : state.memory =
    overlay (kernelWrites params source words dst colSum panel) memory

/-- The bases move to the next panel. -/
theorem advance_exec {field : PackBParams → BitVec 64} {before : State}
    (start : AtLoop params source words src dst colSum memory field panel
      before)
    (packed : PanelPacked params source words dst colSum memory panel before
      state) :
    ∃ after, execAll semantics
        ([.add regSrcBase (.imm params.NR),
            .add regDstBase (.reg regDstPanelStride)] ++
          (if params.accColSum then
            [.add regColSum (.imm (params.NR * 4))]
          else []) ++
          [.cmp regSrcBase (.reg regSrcEnd)]) state = some after ∧
      AtLoop params source words src dst colSum memory field (panel + 1)
        after ∧
      after.flags = .ofSub (offset src (params.NR * (panel + 1)))
        (offset src source.live) := by
  have srcBase : state.gpr regSrcBase + BitVec.ofNat 64 params.NR =
      offset src (params.NR * (panel + 1)) := by
    rw [packed.gpr regSrcBase (by decide), start.srcBase, Nat.mul_succ,
      ← offset_offset]
    rfl
  have dstBase : state.gpr regDstBase + state.gpr regDstPanelStride =
      offset dst (params.NR * source.kcUpdated * (panel + 1)) := by
    rw [packed.gpr regDstBase (by decide), start.dstBase,
      packed.gpr regDstPanelStride (by decide), start.panelStride,
      Nat.mul_succ, ← offset_offset]
    rfl
  have srcEnd : state.gpr regSrcEnd = offset src source.live :=
    (packed.gpr regSrcEnd (by decide)).trans start.srcEnd
  have panelStride : state.gpr regDstPanelStride =
      BitVec.ofNat 64 (params.NR * source.kcUpdated) :=
    (packed.gpr regDstPanelStride (by decide)).trans start.panelStride
  cases accColSum : params.accColSum with
  | true =>
      have words : BitVec.ofInt 64 (params.NR * 4) =
          BitVec.ofNat 64 (4 * params.NR) := by
        rw [Nat.mul_comm]
        exact BitVec.ofInt_natCast 64 (params.NR * 4)
      have next : state.gpr regColSum + BitVec.ofNat 64 (4 * params.NR) =
          offset colSum (4 * (params.NR * (panel + 1))) := by
        rw [packed.gpr regColSum (by decide), start.sums accColSum,
          Nat.mul_succ, Nat.mul_add, ← offset_offset]
        rfl
      refine ⟨_, rfl, ⟨⟨?_, ?_, ?_, packed.mask,
        ⟨packed.constants.zero, packed.constants.selectors⟩⟩, ?_, ?_, ?_, ?_,
        fun _ => ?_, packed.field.trans start.field, packed.written⟩, ?_⟩
      · simpa [Function.update_of_ne] using packed.stride
      · simpa [Function.update_of_ne] using packed.depth
      · simpa [Function.update_of_ne] using packed.whole
      · simpa [Function.update_of_ne, Operand.value] using srcBase
      · simpa [Function.update_of_ne, Operand.value] using dstBase
      · simpa [Function.update_of_ne] using srcEnd
      · simpa [Function.update_of_ne] using panelStride
      · simpa [Function.update_of_ne, Operand.value, words] using next
      · simp [Function.update_of_ne, Operand.value, ← srcBase, srcEnd]
  | false =>
      refine ⟨_, rfl, ⟨⟨?_, ?_, ?_, packed.mask,
        ⟨packed.constants.zero, packed.constants.selectors⟩⟩, ?_, ?_, ?_, ?_,
        fun sums => absurd (accColSum.symm.trans sums) Bool.false_ne_true,
        packed.field.trans start.field, packed.written⟩, ?_⟩
      · simpa [Function.update_of_ne] using packed.stride
      · simpa [Function.update_of_ne] using packed.depth
      · simpa [Function.update_of_ne] using packed.whole
      · simpa [Function.update_of_ne, Operand.value] using srcBase
      · simpa [Function.update_of_ne, Operand.value] using dstBase
      · simpa [Function.update_of_ne] using srcEnd
      · simpa [Function.update_of_ne] using panelStride
      · simp [Function.update_of_ne, Operand.value, ← srcBase, srcEnd]

/-- Nothing is written before the first panel. -/
theorem overlay_first (params : PackBGeneratorParams) (source : Source)
    (words : Nat → BitVec 32) (dst colSum : BitVec 64) (memory : Memory) :
    overlay (kernelWrites params source words dst colSum 0) memory =
      memory := by
  have none : columns params source 0 = 0 := by
    rw [columns, Nat.mul_zero, Nat.zero_min]
  funext place
  refine overlay_miss (areas_miss ?_ fun _ => ?_) memory
  · rw [Nat.mul_zero]
    exact Nat.zero_le _
  · rw [none]
    exact Nat.zero_le _

/-- The comparison of the bases. -/
theorem base_flags {first second : Nat} (low : src.toNat + first < 2 ^ 63)
    (high : src.toNat + second < 2 ^ 63) :
    (Flags.ofSub (offset src first) (offset src second)).less =
        decide (first < second) ∧
      (Flags.ofSub (offset src first) (offset src second)).carry =
        decide (first < second) := by
  rw [offset_toNat, offset_toNat, Flags.less_ofSub low high,
    Flags.carry_ofSub (by omega) (by omega), decide_eq_decide]
  omega

/-- One round of the loop over panels. -/
theorem panelRound_triple
    (data : CallData params source panels words src dst colSum memory)
    (legal : params.accepted = true)
    (whole : source.live = params.NR * panels)
    (below : src.toNat + source.live < 2 ^ 63)
    {field : PackBParams → BitVec 64} (inside : panel < panels) :
    Triple semantics
      (AtLoop params source words src dst colSum memory field panel)
      (params.panel regSrcBase regDstBase ++
        emit ([.add regSrcBase (.imm params.NR),
            .add regDstBase (.reg regDstPanelStride)] ++
          (if params.accColSum then
            [.add regColSum (.imm (params.NR * 4))]
          else []) ++
          [.cmp regSrcBase (.reg regSrcEnd)]))
      (fun state =>
        AtLoop params source words src dst colSum memory field (panel + 1)
          state ∧
        semantics.holds .b state = decide (panel + 1 < panels)) := by
  intro state start
  rcases callPanel_triple data legal inside start.toCallRegs start.written
    start.sums (by decide) start.srcBase start.dstBase state rfl with
    ⟨middle, packs, packed⟩
  rcases advance_exec start packed with ⟨after, moves, reached, flags⟩
  refine ⟨after, packs.append (Exec.all moves), reached, ?_⟩
  have positive : 0 < params.NR := (accepted_iff.mp legal).1
  have next : params.NR * (panel + 1) ≤ params.NR * panels :=
    Nat.mul_le_mul_left params.NR inside
  have jumps : semantics.holds .b after = after.flags.carry := rfl
  rw [jumps, flags, (base_flags (by omega) below).2, whole,
    decide_eq_decide]
  exact Nat.mul_lt_mul_left positive

/-- `generateFullPanelLoop` of the looped kernel. -/
theorem panelLoop_triple
    (data : CallData params source panels words src dst colSum memory)
    (legal : params.accepted = true) (loops : params.nLoop = true)
    (whole : source.live = params.NR * panels)
    (below : src.toNat + source.live < 2 ^ 63)
    {entry : State} (regs : CallRegs params source entry)
    (first : entry.gpr regSrc = src) (out : entry.gpr regDst = dst)
    (last : entry.gpr regSrcEnd = offset src source.live)
    (panelStride : entry.gpr regDstPanelStride =
      BitVec.ofNat 64 (params.NR * source.kcUpdated))
    (sums : params.accColSum = true → entry.gpr regColSum = colSum)
    (start : entry.memory = memory) :
    Triple semantics (fun state => state = entry)
      params.generateFullPanelLoop
      (AtLoop params source words src dst colSum memory entry.field
        panels) := by
  have enters : Triple semantics (fun state => state = entry)
      (emit [.mov regSrcBase (.reg regSrc), .mov regDstBase (.reg regDst),
        .cmp regSrcBase (.reg regSrcEnd)])
      (fun state => AtLoop params source words src dst colSum memory
          entry.field 0 state ∧
        state.flags = .ofSub (offset src 0) (offset src source.live)) := by
    refine Triple.all ?_
    rintro state rfl
    refine ⟨_, rfl, ⟨⟨?_, ?_, ?_, regs.mask,
      ⟨regs.constants.zero, regs.constants.selectors⟩⟩, ?_, ?_, ?_, ?_,
      fun accColSum => ?_, rfl, ?_⟩, ?_⟩
    · simpa [Function.update_of_ne] using regs.stride
    · simpa [Function.update_of_ne] using regs.depth
    · simpa [Function.update_of_ne] using regs.whole
    · simpa [Function.update_of_ne, Operand.value] using first
    · simpa [Function.update_of_ne, Operand.value] using out
    · simpa [Function.update_of_ne] using last
    · simpa [Function.update_of_ne] using panelStride
    · simpa [Function.update_of_ne] using sums accColSum
    · rw [overlay_first]
      exact start
    · simp [Function.update_of_ne, Operand.value, first, last]
  have jumps (state : State) : semantics.holds .ge state =
      !state.flags.less := rfl
  unfold generateFullPanelLoop
  rw [loops, if_pos rfl]
  refine enters.seq (Triple.skip (fun state before taken => ?_) ?_)
  · rw [jumps, before.2, (base_flags (by omega) below).1, Bool.not_eq_true',
      decide_eq_false_iff_not, whole, Nat.not_lt, Nat.le_zero,
      Nat.mul_eq_zero] at taken
    have none : panels = 0 := taken.resolve_left
      (Nat.ne_of_gt (accepted_iff.mp legal).1)
    rw [none]
    exact before.1
  · intro state before
    have positive : 0 < panels := by
      have falls := before.2
      rw [jumps, before.1.2, (base_flags (by omega) below).1,
        Bool.not_eq_false', decide_eq_true_eq, whole] at falls
      exact Nat.pos_of_mul_pos_left falls
    exact Triple.loop
      (AtLoop params source words src dst colSum memory entry.field)
      positive (fun panel inside =>
        panelRound_triple data legal whole below inside) state before.1.1

/-- `generateFullPanelLoop` of a kernel without the loop. -/
theorem singlePanel_triple
    (data : CallData params source 1 words src dst colSum memory)
    (legal : params.accepted = true) (single : params.nLoop = false)
    {entry : State} (regs : CallRegs params source entry)
    (first : entry.gpr regSrc = src) (out : entry.gpr regDst = dst)
    (sums : params.accColSum = true → entry.gpr regColSum = colSum)
    (start : entry.memory = memory) :
    Triple semantics (fun state => state = entry)
      params.generateFullPanelLoop
      (PanelPacked params source words dst colSum memory 0 entry) := by
  unfold generateFullPanelLoop
  rw [single, if_neg Bool.false_ne_true]
  refine callPanel_triple data legal Nat.one_pos regs ?_ ?_ (by decide) ?_ ?_
  · rw [start, overlay_first]
  · intro accColSum
    rw [sums accColSum, Nat.mul_zero, Nat.mul_zero, offset_zero]
  · rw [first, Nat.mul_zero, offset_zero]
  · rw [out, Nat.mul_zero, offset_zero]

end Panels

/-! ## The kernel -/

/-- The parameter block of a call. -/
structure Fields (params : PackBGeneratorParams) (source : Source)
    (src dst colSum : BitVec 64) (field : PackBParams → BitVec 64) :
    Prop where
  srcAt : field .src = src
  dstAt : field .dst = dst
  k : field .k = BitVec.ofNat 64 source.k
  rsSrc : field .rsSrc = BitVec.ofNat 64 source.ldb
  limit : params.nLoop = true →
    field .nFullPiecesLimit = BitVec.ofNat 64 source.live
  mask : params.useMask = true → ∀ index < blockN,
    (field .nFringeMaskPerBlock).getLsbD index = decide (index < source.live)
  sumsAt : params.accColSum = true → field .colSum = colSum

/-- The registers behind `initializeParameters`. -/
structure Initialized (params : PackBGeneratorParams) (source : Source)
    (src dst colSum : BitVec 64) (entry state : State) : Prop where
  srcAt : state.gpr regSrc = src
  dstAt : state.gpr regDst = dst
  stride : state.gpr regLdbBytes = BitVec.ofNat 64 source.ldb
  depth : state.gpr regK = BitVec.ofNat 64 source.k
  whole : state.gpr regKFull = BitVec.ofNat 64 (source.k / 4 * 4)
  panelStride : params.nLoop = true → state.gpr regDstPanelStride =
    BitVec.ofNat 64 (params.NR * source.kcUpdated)
  srcEnd : params.nLoop = true →
    state.gpr regSrcEnd = offset src source.live
  sumsAt : params.accColSum = true → state.gpr regColSum = colSum
  field : state.field = entry.field
  memory : state.memory = entry.memory

section Kernel

variable {params : PackBGeneratorParams} {source : Source}
variable {words : Nat → BitVec 32} {src dst colSum : BitVec 64}
variable {panels : Nat} {entry : State}

/-- `initializeParameters`. -/
theorem initializeParameters_runs
    (fields : Fields params source src dst colSum entry.field) :
    ∃ state, execAll semantics params.initializeParameters entry =
        some state ∧
      Initialized params source src dst colSum entry state := by
  have whole : BitVec.ofNat 64 source.k &&& 18446744073709551612#64 =
      BitVec.ofNat 64 (source.k / 4 * 4) := and_high source.k 2
  have panelStride : ((BitVec.ofNat 64 source.k + 3#64) &&&
      18446744073709551612#64) * BitVec.ofNat 64 params.NR =
        BitVec.ofNat 64 (params.NR * source.kcUpdated) := by
    have rounded : BitVec.ofNat 64 (source.k + 3) &&&
        18446744073709551612#64 = BitVec.ofNat 64 source.kcUpdated :=
      and_high (source.k + 3) 2
    rw [← BitVec.ofNat_add, rounded, ← BitVec.ofNat_mul, Nat.mul_comm]
  have last : BitVec.ofNat 64 source.live + src =
      offset src source.live := BitVec.add_comm _ _
  unfold initializeParameters
  cases loops : params.nLoop <;> cases accColSum : params.accColSum
  all_goals
    refine ⟨_, rfl, ?_, ?_, ?_, ?_, ?_, fun looped => ?_, fun looped => ?_,
      fun adds => ?_, rfl, rfl⟩
    · simp [Operand.value, Function.update_of_ne, fields.srcAt]
    · simp [Operand.value, Function.update_of_ne, fields.dstAt]
    · simp [Operand.value, Function.update_of_ne, fields.rsSrc]
    · simp [Operand.value, Function.update_of_ne, fields.k]
    · simpa [Operand.value, Function.update_of_ne, fields.k, kFactor]
        using whole
    · first
      | exact absurd (loops.symm.trans looped) Bool.false_ne_true
      | simpa [Operand.value, Function.update_of_ne, fields.k, kFactor,
          BitVec.ofInt_natCast] using panelStride
    · first
      | exact absurd (loops.symm.trans looped) Bool.false_ne_true
      | simpa [Operand.value, Function.update_of_ne, fields.srcAt,
          fields.limit loops] using last
    · first
      | exact absurd (accColSum.symm.trans adds) Bool.false_ne_true
      | simpa [Operand.value, Function.update_of_ne] using
          fields.sumsAt accColSum

/-- The constants and the mask. -/
theorem initializeRegisters_runs
    (fields : Fields params source src dst colSum entry.field)
    {state : State}
    (initialized : Initialized params source src dst colSum entry state) :
    ∃ after, execAll semantics params.initializeRegisters state =
        some after ∧
      Initialized params source src dst colSum entry after ∧
      CallRegs params source after := by
  have low (value : BitVec 64) {index : Nat} (below : index < blockN) :
      ((value.setWidth 16).setWidth 64).getLsbD index =
        value.getLsbD index := by
    unfold blockN at below
    have fits : index < 64 := by omega
    simp [below, fits]
  have mask : params.useMask = true → ∀ index < blockN,
      (((state.field .nFringeMaskPerBlock).setWidth 16).setWidth
        64).getLsbD index = decide (index < source.live) := by
    intro masked index below
    rw [low _ below, initialized.field]
    exact fields.mask masked index below
  have blank : ∀ value : Zmm,
      (Width.xmm.clip fun index => value index ^^^ value index) =
        fun _ => 0 := by
    intro value
    funext index
    simp [Width.clip, keepBytes]
  unfold initializeRegisters
  cases wide : params.useZmm64 <;> cases masked : params.useMask
  all_goals
    refine ⟨_, rfl, ⟨?_, ?_, ?_, ?_, ?_, fun looped => ?_, fun looped => ?_,
      fun adds => ?_, initialized.field, initialized.memory⟩,
        ⟨?_, ?_, ?_, fun holds => ?_, ?_, fun large => ?_⟩⟩
    · simpa [Function.update_of_ne, Machine.zip] using initialized.srcAt
    · simpa [Function.update_of_ne, Machine.zip] using initialized.dstAt
    · simpa [Function.update_of_ne, Machine.zip] using initialized.stride
    · simpa [Function.update_of_ne, Machine.zip] using initialized.depth
    · simpa [Function.update_of_ne, Machine.zip] using initialized.whole
    · simpa [Function.update_of_ne, Machine.zip] using
        initialized.panelStride looped
    · simpa [Function.update_of_ne, Machine.zip] using
        initialized.srcEnd looped
    · simpa [Function.update_of_ne, Machine.zip] using
        initialized.sumsAt adds
    · simpa [Function.update_of_ne, Machine.zip] using initialized.stride
    · simpa [Function.update_of_ne, Machine.zip] using initialized.depth
    · simpa [Function.update_of_ne, Machine.zip] using initialized.whole
    · first
      | exact absurd (masked.symm.trans holds) Bool.false_ne_true
      | simpa [Function.update_of_ne, Machine.zip, Operand.value] using
          mask masked
    · simpa [Function.update_of_ne, Machine.zip] using
        blank (state.zmm xmmZero)
    · first
      | exact absurd (wide.symm.trans large) Bool.false_ne_true
      | simp [Function.update_of_ne, Machine.zip]

theorem labels_emitted (code : List Code) : labels (emit code) = [] :=
  labels_instrs code

/-- The code of an accepted kernel. -/
theorem generated_iff {code : Emitted} :
    params.generateKernel = some code ↔
      params.accepted = true ∧
        emit (params.initializeParameters ++ params.initializeRegisters) ++
          params.generateFullPanelLoop ++
          emit [.mov regKr (.imm (params.NR * kFactor)),
            .setField .rsDst regKr, .mov regKr (.imm regBytes),
            .setField .csDst regKr, .vzeroupper] ++
          (if params.useZmm64 then
            [.jmp .selectorsEnd, .label .selectorsEnd]
          else []) = code := by
  unfold generateKernel
  by_cases legal : params.accepted = true
  · rw [if_pos legal, Option.some.injEq, and_iff_right legal]
  · rw [if_neg legal]
    exact ⟨fun none => (nomatch none), fun holds => absurd holds.1 legal⟩

/-- The labels of a kernel are distinct. -/
theorem labels_kernel {code : Emitted}
    (generated : params.generateKernel = some code) :
    (labels code).Nodup := by
  rcases generated_iff.mp generated with ⟨_, rfl⟩
  cases wide : params.useZmm64 <;> cases loops : params.nLoop <;>
    simp [labels, labels_emitted, generateFullPanelLoop, loops,
      PackBGeneratorParams.panel, generatePanelBody, quadLoop, kTail]

/-- Behind the panels of a kernel. -/
structure Packed (params : PackBGeneratorParams) (source : Source)
    (words : Nat → BitVec 32) (dst colSum : BitVec 64) (panels : Nat)
    (entry state : State) : Prop where
  field : state.field = entry.field
  memory : state.memory =
    overlay (kernelWrites params source words dst colSum panels)
      entry.memory

/-- How many panels a kernel packs. -/
def Counts (params : PackBGeneratorParams) (source : Source)
    (src : BitVec 64) (panels : Nat) : Prop :=
  if params.nLoop then
    params.useMask = false ∧ src.toNat + source.live < 2 ^ 63
  else panels = 1

/-- The panels of a kernel. -/
theorem panels_triple
    (data : CallData params source panels words src dst colSum entry.memory)
    (legal : params.accepted = true)
    (counts : Counts params source src panels) {ready : State}
    (initialized : Initialized params source src dst colSum entry ready)
    (regs : CallRegs params source ready) :
    Triple semantics (fun state => state = ready)
      params.generateFullPanelLoop
      (Packed params source words dst colSum panels entry) := by
  unfold Counts at counts
  cases loops : params.nLoop with
  | true =>
      rw [loops, if_pos rfl] at counts
      rcases counts with ⟨whole, below⟩
      have width := data.width
      rw [whole, if_neg Bool.false_ne_true] at width
      exact (panelLoop_triple data legal loops width below regs
        initialized.srcAt initialized.dstAt (initialized.srcEnd loops)
        (initialized.panelStride loops) initialized.sumsAt
        initialized.memory).weaken (fun _ same => same) fun state reached =>
          ⟨reached.field.trans initialized.field, reached.written⟩
  | false =>
      rw [loops, if_neg Bool.false_ne_true] at counts
      subst counts
      exact (singlePanel_triple data legal loops regs initialized.srcAt
        initialized.dstAt initialized.sumsAt initialized.memory).weaken
          (fun _ same => same) fun state reached =>
            ⟨reached.field.trans initialized.field, reached.written⟩

/-- The parameter block behind a kernel. -/
def strides (params : PackBGeneratorParams)
    (field : PackBParams → BitVec 64) : PackBParams → BitVec 64 :=
  Function.update
    (Function.update field .rsDst (BitVec.ofNat 64 (params.NR * kFactor)))
    .csDst (BitVec.ofNat 64 regBytes)

/-- A generated kernel packs its panels. -/
theorem generateKernel_runs {code : Emitted}
    (generated : params.generateKernel = some code)
    (data : CallData params source panels words src dst colSum entry.memory)
    (fields : Fields params source src dst colSum entry.field)
    (counts : Counts params source src panels) :
    ∃ final, Runs semantics code entry final ∧
      final.field = strides params entry.field ∧
      final.memory =
        overlay (kernelWrites params source words dst colSum panels)
          entry.memory := by
  have distinct := labels_kernel generated
  rcases generated_iff.mp generated with ⟨legal, rfl⟩
  rcases initializeParameters_runs fields with ⟨first, loads, initialized⟩
  rcases initializeRegisters_runs fields initialized with
    ⟨ready, sets, prepared, regs⟩
  rcases panels_triple data legal counts prepared regs ready rfl with
    ⟨done, packs, packed⟩
  have starts : execAll semantics
      (params.initializeParameters ++ params.initializeRegisters) entry =
        some ready := by
    rw [execAll_append, loads, Option.bind_some, sets]
  have panelStride : BitVec.ofInt 64 (params.NR * kFactor) =
      BitVec.ofNat 64 (params.NR * kFactor) := by
    rw [← Nat.cast_mul, BitVec.ofInt_natCast]
  have ends : ∃ final, execAll semantics
      [(.mov regKr (.imm (params.NR * kFactor)) : Code),
        .setField .rsDst regKr, .mov regKr (.imm regBytes),
        .setField .csDst regKr, .vzeroupper] done = some final ∧
      final.field = strides params entry.field ∧
      final.memory = done.memory := by
    refine ⟨_, rfl, ?_, rfl⟩
    simp [Operand.value, strides, packed.field, panelStride,
      BitVec.ofInt_natCast]
  rcases ends with ⟨final, closes, field, memory⟩
  have tail : Exec semantics
      (if params.useZmm64 then
        [.jmp .selectorsEnd, .label .selectorsEnd]
      else ([] : Emitted)) final final := by
    split_ifs
    · exact Exec.jump Label.selectorsEnd final []
    · exact Exec.nil final
  refine ⟨final, ?_, field, memory.trans packed.memory⟩
  exact ((((Exec.all starts).append packs).append
    (Exec.all closes)).append tail).runs distinct

end Kernel

/-! ## Where the elements are -/

/-- Elements of a panel are where the reference packing looks for them. -/
theorem panelImage_elemOffset (source : Source) {NR p j : Nat}
    (column : Nat) (inside : j < NR) :
    source.panelImage NR column (dlpReorderElemOffset p j NR kFactor) =
      source.padded p (column + j) := by
  have low : j * 4 + p % 4 < 4 * NR :=
    elemOffset_low_lt p (by decide) inside
  have split : dlpReorderElemOffset p j NR kFactor =
      4 * NR * (p / 4) + (j * 4 + p % 4) := by
    unfold dlpReorderElemOffset kFactor
    rw [Nat.mul_comm (p / 4), Nat.add_assoc]
  have row : 4 * (p / 4) + (j * 4 + p % 4) % 4 = p := by omega
  have slot : (j * 4 + p % 4) / 4 = j := by omega
  rw [split, source.panelImage_quad column (p / 4) low]
  simp only [quadImage, Source.quad, row, slot]

/-- The place of an element in its panel. -/
theorem elemOffset_panel (source : Source) {NR p j : Nat}
    (row : p < source.kcUpdated) (inside : j < NR) :
    dlpReorderElemOffset p j NR kFactor < NR * source.kcUpdated :=
  elemOffset_lt (by decide) ⟨(source.k + 3) / 4, Nat.mul_comm _ _⟩ row
    inside

/-- What a call leaves in memory. -/
structure Delivered (params : PackBGeneratorParams) (source : Source)
    (words : Nat → BitVec 32) (dst colSum : BitVec 64) (panels : Nat)
    (entry final : Memory) : Prop where
  packed : ∀ panel < panels, ∀ p < source.kcUpdated, ∀ j < params.NR,
    final (offset dst (params.NR * source.kcUpdated * panel +
      dlpReorderElemOffset p j params.NR kFactor)) =
        some (source.padded p (params.NR * panel + j))
  sums : params.accColSum = true →
    WordsAt final colSum source.live (summed source words)
  kept : ∀ place,
    Outside dst (params.NR * source.kcUpdated * panels) place →
    (params.accColSum = true → Outside colSum (4 * source.live) place) →
      final place = entry place

section Delivered

variable {params : PackBGeneratorParams} {source : Source}
variable {words : Nat → BitVec 32} {src dst colSum : BitVec 64}
variable {panels : Nat} {memory : Memory}

/-- A call sums all its columns. -/
theorem CallData.all_columns
    (data : CallData params source panels words src dst colSum memory)
    (legal : params.accepted = true) :
    columns params source panels = source.live := by
  have width := data.width
  unfold columns
  split_ifs at width with masked
  · rcases width with ⟨rfl, narrow⟩
    rw [(accepted_iff.mp legal).2.2.2 masked, Nat.mul_one]
    exact Nat.min_eq_right narrow
  · rw [width, Nat.min_self]

/-- The writes of a call are its packed bytes and its column sums. -/
theorem CallData.delivered
    (data : CallData params source panels words src dst colSum memory)
    (legal : params.accepted = true) :
    Delivered params source words dst colSum panels memory
      (overlay (kernelWrites params source words dst colSum panels)
        memory) where
  packed panel inside p row j column := by
    have small := elemOffset_panel source row column
    have fits := bytes_fit params source inside
    have apart (sums : params.accColSum = true) :
        Apart dst colSum (params.NR * source.kcUpdated * panels)
          (columns params source panels) := by
      rw [data.all_columns legal]
      exact (data.sums sums).2.2
    rw [kernelWrites,
      overlay_hit (areas_bytes data.extent apart (by omega)),
      kernelImage_panel panel small, panelImage_elemOffset source _ column]
  sums accColSum _ inside := by
    refine overlay_hit (areas_words accColSum ?_ ?_) memory
    · rw [data.all_columns legal]
      exact (data.sums accColSum).2.1
    · rw [data.all_columns legal]
      exact inside
  kept place packed sums :=
    overlay_miss (areas_miss packed fun accColSum => by
      rw [data.all_columns legal]
      exact sums accColSum) memory

end Delivered

/-- The generated code packs its call: it ends from whatever registers, and
every run of it leaves the interleaved panels and the column sums. -/
theorem generateKernel_packs {params : PackBGeneratorParams}
    {source : Source} {words : Nat → BitVec 32}
    {src dst colSum : BitVec 64} {panels : Nat} {entry : State}
    {code : Emitted} (generated : params.generateKernel = some code)
    (data : CallData params source panels words src dst colSum entry.memory)
    (fields : Fields params source src dst colSum entry.field)
    (counts : Counts params source src panels) :
    (∃ final, Runs semantics code entry final) ∧
      ∀ final, Runs semantics code entry final →
        final.field = strides params entry.field ∧
          Delivered params source words dst colSum panels entry.memory
            final.memory := by
  have legal := (generated_iff.mp generated).1
  rcases generateKernel_runs generated data fields counts with
    ⟨reached, runs, field, memory⟩
  refine ⟨⟨reached, runs⟩, fun final other => ?_⟩
  rw [Runs.unique semantics other runs]
  refine ⟨field, ?_⟩
  rw [memory]
  exact data.delivered legal

/-! A masked call on three columns of five rows. -/

def threeParams : PackBGeneratorParams where
  NR := 16
  useMask := true
  nLoop := false
  accColSum := true

def threeColumns : Source where
  ldb := 3
  k := 5
  live := 3
  element p j := BitVec.ofNat 8 (3 * p + j)

def threeEntry : State where
  gpr _ := 0
  zmm _ _ := 0
  opmask _ := 0
  flags := .ofSub 0 0
  field
    | .dst => 0x1000
    | .k => 5
    | .rsSrc => 3
    | .nFringeMaskPerBlock => 7
    | .colSum => 0x2000
    | _ => 0
  memory place :=
    some (if place.toNat < 15 then place.setWidth 8 else 0)

theorem generateKernel_packs_three :
    ∃ code final, threeParams.generateKernel = some code ∧
      Runs semantics code threeEntry final ∧
      final.memory (offset 0x1000 (dlpReorderElemOffset 4 2 16 4)) =
        some 14 ∧
      WordsAt final.memory 0x2000 3 (columnSum threeColumns) := by
  have accepted : threeParams.accepted = true := by decide
  have generated : ∃ code, threeParams.generateKernel = some code :=
    ⟨_, if_pos accepted⟩
  rcases generated with ⟨code, generated⟩
  have data : CallData threeParams threeColumns 1 (fun _ => 0) 0 0x1000
      0x2000 threeEntry.memory :=
    { small := by decide
      width := by decide
      stored := by
        unfold Outside
        decide
      mapped := fun _ _ => rfl
      extent := by decide
      sums := fun _ => by
        unfold WordsAt Apart Outside
        decide }
  have fields : Fields threeParams threeColumns 0 0x1000 0x2000
      threeEntry.field :=
    { srcAt := rfl
      dstAt := rfl
      k := rfl
      rsSrc := rfl
      limit := fun looped => absurd looped (by decide)
      mask := fun _ => by decide
      sumsAt := fun _ => rfl }
  rcases generateKernel_packs generated data fields rfl with
    ⟨⟨final, runs⟩, every⟩
  rcases every final runs with ⟨_, delivered⟩
  refine ⟨code, final, generated, runs, ?_, ?_⟩
  · exact delivered.packed 0 (by decide) 4 (by decide) 2 (by decide)
  · intro index inside
    rw [delivered.sums rfl index inside]
    simp [summed, wordBytes]

end AoclDlp.Jit.PackBKernel
