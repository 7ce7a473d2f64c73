import AoclDlp.Foundations.MachineInt
import AoclDlp.Jit.PackBQuad

/-!
# One panel

`generatePanelBody` packs the whole quads of K in a loop and the last rows as
a quad that is filled with zeros.  Behind it the panel holds each element at
the byte of its quad, column and row, and the accumulators hold the sums of
the columns, which `flushColSum` adds to memory.
-/

namespace AoclDlp.Jit.PackBPanel

open AoclDlp.Foundations.Assembly
open AoclDlp.Foundations.Avx512
open AoclDlp.Foundations.Lanes
open AoclDlp.Foundations.Regions
open AoclDlp.Jit.PackBGenerator
open AoclDlp.Jit.PackBGenerator.PackBGeneratorParams
open AoclDlp.Jit.PackBQuad
open AoclDlp.Jit.S8Generator (Reg64 ptr regBytes)

/-! ## What a panel reads and writes -/

/-- A matrix of int8 elements: its extent and its row stride. -/
structure Source where
  ldb : Nat
  k : Nat
  live : Nat
  element : Nat → Nat → BitVec 8

/-- Elements, and zeros behind the last row and the last column. -/
def Source.padded (source : Source) (p j : Nat) : BitVec 8 :=
  if p < source.k ∧ j < source.live then source.element p j else 0

/-- The rows of a quad, from a column on. -/
def Source.quad (source : Source) (column q i j : Nat) : BitVec 8 :=
  source.padded (4 * q + i) (column + j)

/-- `KC_updated`. -/
def Source.kcUpdated (source : Source) : Nat :=
  (source.k + 3) / 4 * 4

/-- The packed bytes of a panel of `NR` columns from a column on. -/
def Source.panelImage (source : Source) (NR column index : Nat) : BitVec 8 :=
  source.padded (4 * (index / (4 * NR)) + index % 4)
    (column + index % (4 * NR) / 4)

/-- The rows of a panel, from a column on. -/
def Source.rows (source : Source) (column p j : Nat) : BitVec 8 :=
  source.padded p (column + j)

namespace Source

variable (source : Source)

theorem quad_eq_rows (column q : Nat) :
    source.quad column q = fun i => source.rows column (4 * q + i) :=
  rfl

/-- A quad of a panel. -/
theorem panelImage_quad {NR : Nat} (column q : Nat) {index : Nat}
    (inside : index < 4 * NR) :
    source.panelImage NR column (4 * NR * q + index) =
      quadImage (source.quad column q) index := by
  have positive : 0 < 4 * NR := by omega
  have number : (4 * NR * q + index) / (4 * NR) = q := by
    rw [Nat.mul_add_div positive, Nat.div_eq_of_lt inside, Nat.add_zero]
  have place : (4 * NR * q + index) % (4 * NR) = index := by
    rw [Nat.mul_add_mod, Nat.mod_eq_of_lt inside]
  have byte : (4 * NR * q + index) % 4 = index % 4 := by
    rw [Nat.mul_assoc, Nat.mul_add_mod]
  rw [panelImage, number, place, byte]
  rfl

end Source

theorem addRows_add (rows : Nat → Nat → BitVec 8) (block first more : Nat)
    (acc : Zmm) :
    addRows (fun i => rows (first + i)) block more
        (addRows rows block first acc) =
      addRows rows block (first + more) acc := by
  induction more with
  | zero => rw [addRows_zero, Nat.add_zero]
  | succ more ih => rw [addRows_succ, ih, ← Nat.add_assoc, addRows_succ]

/-- Rows behind K add nothing. -/
theorem addRows_padded (source : Source) (column block : Nat) {count : Nat}
    (enough : source.k ≤ count) (acc : Zmm) :
    addRows (source.rows column) block count acc =
      addRows (source.rows column) block source.k acc := by
  induction count, enough using Nat.le_induction with
  | base => rfl
  | succ count enough ih =>
      rw [addRows_blank (fun j => ?_), ih]
      exact if_neg fun inside => absurd inside.1 (Nat.not_lt.mpr enough)

/-- What a panel needs of its registers and of memory. -/
structure PanelData (params : PackBGeneratorParams) (source : Source)
    (column : Nat) (src dst : BitVec 64) (entry : State) : Prop where
  stride : entry.gpr regLdbBytes = BitVec.ofNat 64 source.ldb
  depth : entry.gpr regK = BitVec.ofNat 64 source.k
  whole : entry.gpr regKFull = BitVec.ofNat 64 (source.k / 4 * 4)
  small : source.k < 2 ^ 62
  width : if params.useMask then
      column = 0 ∧ source.live ≤ blockN ∧ ∀ index < blockN,
        (entry.opmask maskLt16).getLsbD index = decide (index < source.live)
    else column + params.NR ≤ source.live
  stored : ∀ p < source.k, ∀ j, column + j < source.live →
    entry.memory (offset src (p * source.ldb + j)) =
        some (source.element p (column + j)) ∧
      Outside dst (params.NR * source.kcUpdated)
        (offset src (p * source.ldb + j))
  mapped : Mapped entry.memory dst (params.NR * source.kcUpdated)
  extent : params.NR * source.kcUpdated ≤ 2 ^ 64
  constants : Constants params entry

/-- A panel whose row pointers are set. -/
abbrev PanelEntry (params : PackBGeneratorParams) (source : Source)
    (column : Nat) (entry : State) : Prop :=
  PanelData params source column (entry.gpr regSrcRow)
    (entry.gpr regDstRow) entry

/-- The registers that a panel changes. -/
def panelRegs : List Reg64 :=
  [regSrc, regSrcRow, regDstRow, regKr]

/-- Behind quads of a panel whose rows have been added to the sums. -/
structure InPanel (params : PackBGeneratorParams) (source : Source)
    (column : Nat) (entry : State) (acc : Nat → Zmm) (quads count : Nat)
    (state : State) : Prop where
  gpr : ∀ register ∉ panelRegs, state.gpr register = entry.gpr register
  opmask : state.opmask = entry.opmask
  field : state.field = entry.field
  memory : state.memory =
    overlay (region (entry.gpr regDstRow) (upTo (4 * params.NR * quads))
      (source.panelImage params.NR column)) entry.memory
  constants : Constants params state
  acc : params.accColSum = true → ∀ t < params.numBlocks,
    state.zmm (zmmAcc0 + t) =
      addRows (source.rows column) t count (acc t)

/-- Before the next quad of a panel. -/
structure AtQuad (params : PackBGeneratorParams) (source : Source)
    (column : Nat) (entry : State) (acc : Nat → Zmm) (q : Nat)
    (state : State) : Prop
    extends InPanel params source column entry acc q (4 * q) state where
  stride3 : state.gpr regSrc = BitVec.ofNat 64 (3 * source.ldb)
  row : state.gpr regSrcRow =
    offset (entry.gpr regSrcRow) (4 * q * source.ldb)
  dst : state.gpr regDstRow = offset (entry.gpr regDstRow) (4 * params.NR * q)

section Panel

variable {params : PackBGeneratorParams} {source : Source} {column : Nat}
variable {entry state : State} {acc : Nat → Zmm} {q : Nat}

theorem kcUpdated_eq (source : Source) :
    source.kcUpdated = 4 * ((source.k + 3) / 4) :=
  Nat.mul_comm _ _

/-- The bytes of the first quads lie in the panel. -/
theorem quads_fit {quads : Nat} (inside : quads ≤ (source.k + 3) / 4) :
    4 * params.NR * quads ≤ params.NR * source.kcUpdated := by
  rw [kcUpdated_eq]
  calc 4 * params.NR * quads
      ≤ 4 * params.NR * ((source.k + 3) / 4) := Nat.mul_le_mul_left _ inside
    _ = params.NR * (4 * ((source.k + 3) / 4)) := by ring

/-- The bytes of a quad behind others. -/
theorem quad_fits (params : PackBGeneratorParams) {source : Source} {q : Nat}
    (inside : q < (source.k + 3) / 4) :
    4 * params.NR * q + params.NR * kFactor ≤
      params.NR * source.kcUpdated := by
  unfold kFactor
  calc 4 * params.NR * q + params.NR * 4
      = 4 * params.NR * (q + 1) := by ring
    _ ≤ _ := quads_fit inside

/-- What the next quad reads. -/
theorem AtQuad.rows (start : PanelEntry params source column entry)
    (before : AtQuad params source column entry acc q state)
    {nLiveRows : Nat} (positive : 0 < nLiveRows)
    (rest : 4 * q + nLiveRows ≤ source.k)
    (last : nLiveRows = 4 ∨ 4 * q + nLiveRows = source.k) :
    QuadRows params state source.ldb nLiveRows (source.live - column)
      (source.quad column q) where
  stride := (before.gpr regLdbBytes (by decide)).trans start.stride
  stride3 := before.stride3
  depth := positive
  width := by
    have width := start.width
    rw [before.opmask]
    split_ifs at width ⊢ with masked
    · rcases width with ⟨rfl, narrow, bits⟩
      rw [Nat.sub_zero]
      exact ⟨narrow, bits⟩
    · omega
  stored i row j inColumn := by
    have place : quadAt state source.ldb i j =
        offset (entry.gpr regSrcRow) ((4 * q + i) * source.ldb + j) := by
      rw [quadAt, before.row, offset_offset]
      congr 1
      ring
    have byte := start.stored (4 * q + i) (by omega) j (by omega)
    have next : 4 * params.NR * q + params.NR * kFactor ≤
        params.NR * source.kcUpdated := quad_fits params (by omega)
    rw [place, before.dst, before.memory]
    refine ⟨?_, byte.2.part next⟩
    rw [overlay_miss (region_outside (byte.2.mono (by omega))), byte.1,
      Source.quad, Source.padded, if_pos ⟨by omega, by omega⟩]
  blank i row j behind := by
    refine if_neg fun inside => ?_
    omega

/-- What the next quad writes. -/
theorem AtQuad.area (start : PanelEntry params source column entry)
    (before : AtQuad params source column entry acc q state)
    (inside : q < (source.k + 3) / 4) : QuadArea params state where
  mapped index below := by
    have fits := quad_fits params inside
    rw [before.memory, before.dst, offset_offset]
    exact overlay_isSome (start.mapped _ (by omega)) _
  extent := by
    have fits := quad_fits params inside
    have extent := start.extent
    omega

/-- Behind the next quad. -/
theorem AtQuad.next (legal : params.accepted = true)
    (start : PanelEntry params source column entry)
    (before : AtQuad params source column entry acc q state)
    (inside : q < (source.k + 3) / 4) {after : State}
    (packed : AtBlock params state (source.quad column q)
      (fun t => state.zmm (zmmAcc0 + t)) params.numBlocks after) :
    InPanel params source column entry acc (q + 1) (4 * (q + 1)) after where
  gpr register apart := by
    rw [packed.gpr]
    exact before.gpr register apart
  opmask := packed.opmask.trans before.opmask
  field := packed.field.trans before.field
  constants := packed.constants
  memory := by
    have whole : regBytes * params.numBlocks = 4 * params.NR := by
      have bounds := accepted_iff.mp legal
      unfold regBytes numBlocks blockN
      omega
    have fits := quad_fits params inside
    have extent := start.extent
    unfold kFactor at fits
    rw [packed.memory, quadMemory, before.memory, before.dst, whole,
      overlay_overlay, region_append _ (by omega), ← Nat.mul_succ]
    intro index below
    exact (source.panelImage_quad column q below).symm
  acc sums t block := by
    have all : doneCounts params.numBlocks t = 4 := if_pos block
    rw [packed.acc sums t block, all, before.acc sums t block,
      source.quad_eq_rows, addRows_add]
    rfl

/-! ## The loop over K -/

/-- One quad of the loop or of the tail. -/
theorem quad_exec (legal : params.accepted = true)
    (start : PanelEntry params source column entry) {nLiveRows : Nat}
    (positive : 0 < nLiveRows) (rest : 4 * q + nLiveRows ≤ source.k)
    (last : nLiveRows = 4 ∨ 4 * q + nLiveRows = source.k)
    (before : AtQuad params source column entry acc q state) :
    ∃ after, Exec semantics (emit (params.interleaveKQuad nLiveRows)) state
        after ∧
      InPanel params source column entry acc (q + 1) (4 * (q + 1)) after ∧
        after.gpr = state.gpr := by
  have inside : q < (source.k + 3) / 4 := by omega
  have nothing : AtBlock params state (source.quad column q)
      (fun t => state.zmm (zmmAcc0 + t)) 0 state := by
    refine ⟨rfl, rfl, rfl, ?_, before.constants, fun _ t _ => ?_⟩
    · rw [quadMemory, Nat.mul_zero, region_zero, overlay_none]
    · exact (addRows_zero _ t _).symm
  rcases interleaveKQuad_triple (before.rows start positive rest last) legal
    (before.area start inside) state nothing with ⟨after, runs, packed⟩
  exact ⟨after, runs, before.next legal start inside packed, packed.gpr⟩

/-- At the top of the loop over K. -/
structure AtRound (params : PackBGeneratorParams) (source : Source)
    (column : Nat) (entry : State) (acc : Nat → Zmm) (q : Nat)
    (state : State) : Prop
    extends AtQuad params source column entry acc q state where
  kr : state.gpr regKr = BitVec.ofNat 64 (4 * q)

/-- The registers of a panel move. -/
theorem InPanel.moved {quads count : Nat}
    (inside : InPanel params source column entry acc quads count state)
    {after : State}
    (gpr : ∀ register ∉ panelRegs,
      after.gpr register = state.gpr register)
    (zmm : after.zmm = state.zmm) (opmask : after.opmask = state.opmask)
    (field : after.field = state.field)
    (memory : after.memory = state.memory) :
    InPanel params source column entry acc quads count after where
  gpr register apart :=
    (gpr register apart).trans (inside.gpr register apart)
  opmask := opmask.trans inside.opmask
  field := field.trans inside.field
  memory := memory.trans inside.memory
  constants := by
    have zero := inside.constants.zero
    have selectors := inside.constants.selectors
    rw [← zmm] at zero selectors
    exact ⟨zero, selectors⟩
  acc := by
    have sums := inside.acc
    rw [← zmm] at sums
    exact sums

/-- One round of the loop over K. -/
theorem round_triple (legal : params.accepted = true)
    (start : PanelEntry params source column entry)
    (inside : q < source.k / 4) :
    Triple semantics (AtRound params source column entry acc q)
      (emit (params.interleaveKQuad kFactor ++
        [.lea regSrcRow ⟨some regSrcRow, some (regLdbBytes, 4), 0⟩,
          .add regDstRow (.imm (params.NR * kFactor)),
          .add regKr (.imm kFactor), .cmp regKr (.reg regKFull)]))
      (fun state => AtRound params source column entry acc (q + 1) state ∧
        semantics.holds .b state = decide (q + 1 < source.k / 4)) := by
  intro state before
  rcases quad_exec legal start (show 0 < kFactor by decide)
    (show 4 * q + kFactor ≤ source.k by unfold kFactor; omega) (.inl rfl)
    before.toAtQuad with ⟨packed, runs, inPanel, same⟩
  have small := start.small
  have stride : packed.gpr regLdbBytes = BitVec.ofNat 64 source.ldb :=
    (inPanel.gpr regLdbBytes (by decide)).trans start.stride
  have full : packed.gpr regKFull = BitVec.ofNat 64 (source.k / 4 * 4) :=
    (inPanel.gpr regKFull (by decide)).trans start.whole
  have row : packed.gpr regSrcRow + BitVec.ofNat 64 source.ldb *
      BitVec.ofNat 64 4 =
        offset (entry.gpr regSrcRow) (4 * (q + 1) * source.ldb) := by
    rw [same, before.row]
    unfold offset
    rw [BitVec.add_assoc, ← BitVec.ofNat_mul, ← BitVec.ofNat_add]
    congr 2
    ring
  have dst : packed.gpr regDstRow +
      BitVec.ofNat 64 (params.NR * kFactor) =
        offset (entry.gpr regDstRow) (4 * params.NR * (q + 1)) := by
    rw [same, before.dst]
    unfold offset kFactor
    rw [BitVec.add_assoc, ← BitVec.ofNat_add]
    congr 2
    ring
  have panelStep : BitVec.ofInt 64 (params.NR * kFactor) =
      BitVec.ofNat 64 (params.NR * kFactor) := by
    rw [← Nat.cast_mul, BitVec.ofInt_natCast]
  have kr : packed.gpr regKr + BitVec.ofNat 64 kFactor =
      BitVec.ofNat 64 (4 * (q + 1)) := by
    rw [same, before.kr, ← BitVec.ofNat_add]
    rfl
  have moves : ∃ after, execAll semantics
      [(.lea regSrcRow ⟨some regSrcRow, some (regLdbBytes, 4), 0⟩ : Code),
        .add regDstRow (.imm (params.NR * kFactor)),
        .add regKr (.imm kFactor), .cmp regKr (.reg regKFull)] packed =
          some after ∧
      AtRound params source column entry acc (q + 1) after ∧
      after.flags = .ofSub (BitVec.ofNat 64 (4 * (q + 1)))
        (BitVec.ofNat 64 (source.k / 4 * 4)) := by
    refine ⟨_, rfl, ⟨⟨inPanel.moved ?_ rfl rfl rfl rfl, ?_, ?_, ?_⟩, ?_⟩, ?_⟩
    · intro register apart
      simp only [panelRegs, List.mem_cons, List.not_mem_nil, or_false,
        not_or] at apart
      simp [Function.update_of_ne, apart]
    · simpa [Function.update_of_ne, same] using before.stride3
    · simpa [Address.at, stride] using row
    · simpa [Operand.value, panelStep] using dst
    · simpa [Operand.value, BitVec.ofInt_natCast] using kr
    · simp [Operand.value, full, ← kr, kFactor]
  rcases moves with ⟨after, moved, round, flags⟩
  refine ⟨after, ?_, round, ?_⟩
  · rw [emit_append]
    exact runs.append (Exec.all moved)
  · have jumps : semantics.holds .b after = after.flags.carry := rfl
    rw [jumps, flags, Flags.carry_ofSub (by omega) (by omega)]
    exact decide_eq_decide.mpr (by omega)

/-- The loop over the whole quads. -/
theorem quadLoop_triple (legal : params.accepted = true)
    (start : PanelEntry params source column entry) :
    Triple semantics
      (fun state => AtRound params source column entry acc 0 state ∧
        state.flags =
          .ofSub (BitVec.ofNat 64 0) (BitVec.ofNat 64 (source.k / 4 * 4)))
      params.quadLoop
      (AtQuad params source column entry acc (source.k / 4)) := by
  have small := start.small
  have jumps (state : State) : semantics.holds .ge state =
      !state.flags.less := rfl
  unfold quadLoop
  refine Triple.skip (fun state before taken => ?_) ?_
  · rw [jumps, before.2, Flags.less_ofSub (by decide) (by omega),
      Bool.not_eq_true', decide_eq_false_iff_not] at taken
    have none : source.k / 4 = 0 := by omega
    rw [none]
    exact before.1.toAtQuad
  · intro state before
    have positive : 0 < source.k / 4 := by
      have falls := before.2
      rw [jumps, before.1.2, Flags.less_ofSub (by decide) (by omega),
        Bool.not_eq_false', decide_eq_true_eq] at falls
      omega
    rcases Triple.loop (AtRound params source column entry acc) positive
      (fun q inside => round_triple legal start inside) state before.1.1 with
      ⟨after, runs, reached⟩
    exact ⟨after, runs, reached.toAtQuad⟩

/-! ## The last rows -/

/-- The last rows are filled up to a quad. -/
theorem tail_exec (legal : params.accepted = true)
    (start : PanelEntry params source column entry)
    (before : AtQuad params source column entry acc (source.k / 4) state)
    (rest : 0 < source.k % 4) :
    ∃ after, Exec semantics (emit (params.interleaveKQuad (source.k % 4)))
        state after ∧
      InPanel params source column entry acc ((source.k + 3) / 4) source.k
        after := by
  rcases quad_exec legal start rest (by omega) (.inr (by omega)) before with
    ⟨after, runs, inPanel, _⟩
  have quads : source.k / 4 + 1 = (source.k + 3) / 4 := by omega
  refine ⟨after, runs, { inPanel with memory := ?_, acc := ?_ }⟩
  · rw [inPanel.memory, quads]
  · intro sums t block
    rw [inPanel.acc sums t block]
    exact addRows_padded source column t (by omega) _

/-- A comparison with the number of the last rows. -/
theorem compare_exec
    (before : AtQuad params source column entry acc q state)
    {rest number : Nat} (small : rest < 4) (few : number < 4)
    (kr : state.gpr regKr = BitVec.ofNat 64 rest) :
    ∃ after, Exec semantics (emit [.cmp regKr (.imm number)]) state after ∧
      AtQuad params source column entry acc q after ∧
      after.gpr regKr = BitVec.ofNat 64 rest ∧
      semantics.holds .e after = decide (rest = number) := by
  refine ⟨_, Exec.instr rfl, ⟨before.toInPanel.moved (fun _ _ => rfl) rfl rfl
    rfl rfl, before.stride3, before.row, before.dst⟩, kr, ?_⟩
  rw [← Flags.zero_ofSub (show rest < 2 ^ 64 by omega)
    (show number < 2 ^ 64 by omega), ← kr, ← BitVec.ofInt_natCast]
  rfl

/-- The switch on the number of the last rows. -/
theorem kTail_triple (legal : params.accepted = true)
    (start : PanelEntry params source column entry) :
    Triple semantics
      (fun state => AtQuad params source column entry acc (source.k / 4)
          state ∧
        state.gpr regKr = BitVec.ofNat 64 (source.k % 4) ∧
        state.flags.zero = decide (source.k % 4 = 0))
      params.kTail
      (InPanel params source column entry acc ((source.k + 3) / 4)
        source.k) := by
  rintro state ⟨before, kr, zero⟩
  have small : source.k % 4 < 4 := Nat.mod_lt _ (by decide)
  have jumps : semantics.holds .e state = decide (source.k % 4 = 0) := zero
  unfold kTail
  rcases Nat.eq_zero_or_pos (source.k % 4) with none | rest
  · refine ⟨state, Exec.skip _ _ (jumps.trans (decide_eq_true none)), ?_⟩
    have quads : (source.k + 3) / 4 = source.k / 4 := by omega
    have count : 4 * (source.k / 4) = source.k := by omega
    rw [quads]
    have inPanel := before.toInPanel
    rwa [count] at inPanel
  · have enters := Exec.pass Label.noKtail
      (jumps.trans (decide_eq_false (Nat.ne_of_gt rest)))
    rcases compare_exec before small (show 1 < 4 by decide) kr with
      ⟨first, compares, atFirst, krFirst, one⟩
    rcases Nat.lt_or_ge 1 (source.k % 4) with more | last
    · have passes := Exec.pass Label.rem1
        (one.trans (decide_eq_false (Nat.ne_of_gt more)))
      rcases compare_exec atFirst small (show 2 < 4 by decide) krFirst with
        ⟨second, again, atSecond, _, two⟩
      rcases tail_exec legal start atSecond rest with ⟨after, runs, packed⟩
      have reaches := ((enters.append compares).append passes).append again
      refine ⟨after, ?_, packed⟩
      rcases Nat.lt_or_ge 2 (source.k % 4) with most | last
      · have three : source.k % 4 = 3 := by omega
        rw [three] at runs
        have leaves := ((reaches.append (Exec.pass Label.rem2
          (two.trans (decide_eq_false (Nat.ne_of_gt most))))).append
            runs).exit Label.noKtail
        have lands := leaves.land (.label .rem2 ::
          (emit (params.interleaveKQuad 2) ++ [.jmp .noKtail, .label .rem1] ++
            emit (params.interleaveKQuad 1)))
        simpa only [List.append_assoc, List.cons_append, List.nil_append,
          Nat.cast_one, Nat.cast_ofNat] using lands
      · have pair : source.k % 4 = 2 := by omega
        rw [pair] at runs
        have leaves := ((reaches.append (Exec.skip Label.rem2
          (emit (params.interleaveKQuad 3) ++ [.jmp .noKtail])
          (two.trans (decide_eq_true pair)))).append runs).exit Label.noKtail
        have lands := leaves.land (.label .rem1 ::
          emit (params.interleaveKQuad 1))
        simpa only [List.append_assoc, List.cons_append, List.nil_append,
          Nat.cast_one, Nat.cast_ofNat] using lands
    · have single : source.k % 4 = 1 := by omega
      rcases tail_exec legal start atFirst rest with ⟨after, runs, packed⟩
      rw [single] at runs
      have skips := Exec.skip Label.rem1
        (emit [.cmp regKr (.imm 2)] ++
          (.jcc .e .rem2 ::
            ((emit (params.interleaveKQuad 3) ++ [.jmp .noKtail]) ++
              [.label .rem2])) ++
          (emit (params.interleaveKQuad 2) ++ [.jmp .noKtail]))
        (one.trans (decide_eq_true single))
      have whole := (((enters.append compares).append skips).append
        runs).append (Exec.label Label.noKtail after)
      refine ⟨after, ?_, packed⟩
      simpa only [List.append_assoc, List.cons_append, List.nil_append,
        Nat.cast_one] using whole

/-! ## The body of a panel -/

/-- The registers before the first quad. -/
theorem enter_triple (start : PanelEntry params source column entry)
    (acc : Nat → Zmm) (zeroed : params.accColSum = true →
      ∀ t < params.numBlocks, entry.zmm (zmmAcc0 + t) = acc t) :
    Triple semantics (fun state => state = entry)
      (emit [.lea regSrc ⟨some regLdbBytes, some (regLdbBytes, 2), 0⟩,
        .xor regKr (.reg regKr), .cmp regKr (.reg regKFull)])
      (fun state => AtRound params source column entry acc 0 state ∧
        state.flags = .ofSub (BitVec.ofNat 64 0)
          (BitVec.ofNat 64 (source.k / 4 * 4))) := by
  refine Triple.all ?_
  rintro state rfl
  have fresh : InPanel params source column state acc 0 0 state := by
    refine ⟨fun _ _ => rfl, rfl, rfl, ?_, start.constants,
      fun sums t block => ?_⟩
    · rw [Nat.mul_zero, region_zero, overlay_none]
    · rw [addRows_zero]
      exact zeroed sums t block
  have triple : BitVec.ofNat 64 source.ldb +
      BitVec.ofNat 64 source.ldb * 2#64 =
        BitVec.ofNat 64 (3 * source.ldb) := by
    rw [← BitVec.ofNat_mul, ← BitVec.ofNat_add]
    congr 1
    ring
  refine ⟨_, rfl, ⟨⟨fresh.moved ?_ rfl rfl rfl rfl, ?_, ?_, ?_⟩, ?_⟩, ?_⟩
  · intro register apart
    simp only [panelRegs, List.mem_cons, List.not_mem_nil, or_false,
      not_or] at apart
    simp [Function.update_of_ne, apart]
  · simpa [Function.update_of_ne, Address.at, start.stride] using triple
  · simp [Function.update_of_ne, offset]
  · simp [Function.update_of_ne, offset]
  · simp [Operand.value]
  · simp [Function.update_of_ne, Operand.value, start.whole]

/-- The number of the last rows is computed. -/
theorem remainder_triple (start : PanelEntry params source column entry) :
    Triple semantics (AtQuad params source column entry acc q)
      (emit [.mov regKr (.reg regK), .and regKr (.imm (kFactor - 1))])
      (fun state => AtQuad params source column entry acc q state ∧
        state.gpr regKr = BitVec.ofNat 64 (source.k % 4) ∧
        state.flags.zero = decide (source.k % 4 = 0)) := by
  refine Triple.all fun state before => ?_
  have depth : state.gpr regK = BitVec.ofNat 64 source.k :=
    (before.gpr regK (by decide)).trans start.depth
  have low : BitVec.ofNat 64 source.k &&& 3#64 =
      BitVec.ofNat 64 (source.k % 4) := and_low source.k 2
  have zero : (BitVec.ofNat 64 (source.k % 4) == 0#64) =
      decide (source.k % 4 = 0) :=
    Flags.zero_ofSub (by omega) (by decide)
  refine ⟨_, rfl, ⟨before.toInPanel.moved ?_ rfl rfl rfl rfl, ?_, ?_, ?_⟩,
    ?_, ?_⟩
  · intro register apart
    simp only [panelRegs, List.mem_cons, List.not_mem_nil, or_false,
      not_or] at apart
    simp [Function.update_of_ne, apart]
  · simpa [Function.update_of_ne] using before.stride3
  · simpa [Function.update_of_ne] using before.row
  · simpa [Function.update_of_ne] using before.dst
  · simpa [Operand.value, depth, kFactor] using low
  · simpa [Operand.value, depth, kFactor, Flags.ofLogic, low] using zero

/-- `generatePanelBody` packs a panel. -/
theorem generatePanelBody_triple (legal : params.accepted = true)
    (start : PanelEntry params source column entry)
    (acc : Nat → Zmm) (zeroed : params.accColSum = true →
      ∀ t < params.numBlocks, entry.zmm (zmmAcc0 + t) = acc t) :
    Triple semantics (fun state => state = entry) params.generatePanelBody
      (InPanel params source column entry acc ((source.k + 3) / 4)
        source.k) := by
  unfold generatePanelBody
  exact (((enter_triple start acc zeroed).seq
    (quadLoop_triple legal start)).seq (remainder_triple start)).seq
      (kTail_triple legal start)

end Panel

end AoclDlp.Jit.PackBPanel
