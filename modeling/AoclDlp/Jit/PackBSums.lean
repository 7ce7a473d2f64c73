import AoclDlp.Jit.PackBPanel

/-!
# The column sums of a panel

`flushColSum` adds the accumulators of a panel, times 128, to words of memory:
whole registers, or in the masked kernel only the words of the live columns.
A panel sets its accumulators to zero, is packed, and flushes them.
-/

namespace AoclDlp.Jit.PackBSums

open AoclDlp.Foundations.Assembly
open AoclDlp.Foundations.Avx512
open AoclDlp.Foundations.Lanes
open AoclDlp.Foundations.Regions
open AoclDlp.Jit.PackBGenerator
open AoclDlp.Jit.PackBGenerator.PackBGeneratorParams
open AoclDlp.Jit.PackBPanel
open AoclDlp.Jit.PackBQuad
open AoclDlp.Jit.S8Generator (Reg64 ptr regBytes)

/-! ## Adding accumulators to words -/

/-- What a flush adds to a word. -/
def shifted (acc : Nat → Zmm) (j : Nat) : BitVec 32 :=
  dword (acc (j / 16)) ⟨j % 16, Nat.mod_lt _ (by decide)⟩ <<< colSumShift

/-- Words behind a flush. -/
def flushed (words : Nat → BitVec 32) (acc : Nat → Zmm) (j : Nat) :
    BitVec 32 :=
  words j + shifted acc j

/-- The words of the first blocks. -/
def flushedWords (count blocks : Nat) : Nat :=
  min (16 * blocks) count

/-- How many words a panel adds to. -/
def panelWords (params : PackBGeneratorParams) (live : Nat) : Nat :=
  if params.useMask then live else params.NR

/-- Behind the flush of some blocks. -/
structure AtFlush (params : PackBGeneratorParams) (entry : State)
    (words : Nat → BitVec 32) (acc : Nat → Zmm) (count blocks : Nat)
    (state : State) : Prop where
  gpr : state.gpr = entry.gpr
  opmask : state.opmask = entry.opmask
  field : state.field = entry.field
  memory : state.memory =
    overlay (region (entry.gpr regColSum)
      (upTo (4 * flushedWords count blocks))
      (wordBytes (flushed words acc))) entry.memory
  constants : Constants params state
  acc : ∀ t < params.numBlocks, blocks ≤ t →
    state.zmm (zmmAcc0 + t) = acc t

/-- What a flush needs. -/
structure FlushEntry (params : PackBGeneratorParams) (live : Nat)
    (words : Nat → BitVec 32) (acc : Nat → Zmm) (entry : State) : Prop where
  constants : Constants params entry
  acc : ∀ t < params.numBlocks, entry.zmm (zmmAcc0 + t) = acc t
  stored : WordsAt entry.memory (entry.gpr regColSum)
    (panelWords params live) words
  mask : params.useMask = true → live ≤ blockN ∧ ∀ index < blockN,
    (entry.opmask maskLt16).getLsbD index = decide (index < live)

section Flush

variable {params : PackBGeneratorParams} {live : Nat}
variable {words : Nat → BitVec 32} {acc : Nat → Zmm} {entry state : State}
variable {block : Nat}

/-- The words of a block. -/
theorem words_block (legal : params.accepted = true)
    (narrow : params.useMask = true → live ≤ blockN)
    (inside : block < params.numBlocks) :
    flushedWords (panelWords params live) block = 16 * block ∧
      flushedWords (panelWords params live) (block + 1) =
        16 * block + min 16 (panelWords params live - 16 * block) := by
  have bounds := accepted_iff.mp legal
  unfold numBlocks blockN at inside
  unfold flushedWords panelWords
  unfold blockN at narrow
  split_ifs with masked
  · have width := bounds.2.2.2 masked
    have few := narrow masked
    omega
  · omega

/-- The words of all blocks. -/
theorem words_all (legal : params.accepted = true)
    (narrow : params.useMask = true → live ≤ blockN) :
    flushedWords (panelWords params live) params.numBlocks =
      panelWords params live := by
  have bounds := accepted_iff.mp legal
  unfold blockN at narrow
  unfold flushedWords panelWords numBlocks blockN
  split_ifs with masked
  · have width := bounds.2.2.2 masked
    have few := narrow masked
    omega
  · omega

/-- The doublewords that a mask selects. -/
theorem keptAt_masked (narrow : live ≤ blockN)
    (bits : ∀ index < blockN,
      (state.opmask maskLt16).getLsbD index = decide (index < live)) :
    keptAt (state.selected 32 .zmm (some maskLt16)) = upTo (4 * live) := by
  funext index
  unfold keptAt upTo
  unfold blockN at narrow bits
  split_ifs with inside
  · have word : index / (32 / 8) = index / 4 := rfl
    have whole : decide (index < Width.zmm.bytes) = true :=
      decide_eq_true inside
    simp only [Machine.selected, whole, Bool.true_and, word,
      bits (index / 4) (by omega), decide_eq_decide]
    omega
  · exact (decide_eq_false (by omega)).symm

/-- A load of the words of a block. -/
theorem read_words (at_ : AtFlush params entry words acc
      (panelWords params live) block state)
    (start : FlushEntry params live words acc entry)
    (before : flushedWords (panelWords params live) block = 16 * block)
    (fits : 4 * panelWords params live ≤ 2 ^ 64)
    {keep : Fin 64 → Bool}
    (kept : keptAt keep =
      upTo (4 * min 16 (panelWords params live - 16 * block))) :
    readBytes state.memory
        ((ptr regColSum (block * regBytes)).at state) keep =
      some (keepBytes keep (wordZmm words block)) := by
  refine readBytes_of_holds fun index selected => ?_
  have chosen := congrFun kept index.val
  rw [keptAt, dif_pos index.isLt, selected, upTo, eq_comm,
    decide_eq_true_eq] at chosen
  have place : block * regBytes + index.val = 64 * block + index := by
    unfold regBytes
    omega
  have later : Outside (entry.gpr regColSum) (4 * (16 * block))
      (offset (entry.gpr regColSum) (64 * block + index)) := by
    rw [Outside, offset_index _ (by omega)]
    omega
  rw [address_ptr, at_.gpr, offset_offset, place, at_.memory, before,
    overlay_miss (region_outside later), start.stored _ (by omega),
    wordZmm_apply]

/-- A store of the words of a block. -/
theorem write_words (at_ : AtFlush params entry words acc
      (panelWords params live) block state)
    (start : FlushEntry params live words acc entry)
    (before : flushedWords (panelWords params live) block = 16 * block)
    (fits : 4 * panelWords params live ≤ 2 ^ 64)
    {keep : Fin 64 → Bool}
    (kept : keptAt keep =
      upTo (4 * min 16 (panelWords params live - 16 * block)))
    {value : Zmm}
    (sums : ∀ lane : Fin 16,
      lane.val < min 16 (panelWords params live - 16 * block) →
        dword value lane = flushed words acc (16 * block + lane)) :
    writeBytes state.memory
        ((ptr regColSum (block * regBytes)).at state) keep value =
      some (overlay (region (entry.gpr regColSum)
        (upTo (4 * (16 * block +
          min 16 (panelWords params live - 16 * block))))
        (wordBytes (flushed words acc))) entry.memory) := by
  have place : block * regBytes = 4 * (16 * block) := by
    unfold regBytes
    omega
  have reach : 16 * block ≤ panelWords params live := by
    rw [← before]
    exact Nat.min_le_right _ _
  have mapped : ∀ index : Fin 64, keep index = true →
      (state.memory (offset (offset (entry.gpr regColSum)
        (4 * (16 * block))) index)).isSome := by
    intro index selected
    have chosen := congrFun kept index.val
    rw [keptAt, dif_pos index.isLt, selected, upTo, eq_comm,
      decide_eq_true_eq] at chosen
    rw [at_.memory, offset_offset]
    refine overlay_isSome ?_ _
    rw [start.stored _ (by omega)]
    rfl
  rw [address_ptr, at_.gpr, place, writeBytes_overlay value mapped, kept,
    at_.memory, before, overlay_overlay, region_append _ (by omega),
    ← Nat.mul_add]
  intro index below
  have same : ∀ lane : Fin 16,
      lane.val < min 16 (panelWords params live - 16 * block) →
        dword value lane =
          dword (wordZmm (flushed words acc) block) lane := by
    intro lane inside
    rw [sums lane inside, dword_wordZmm]
  have inside : index < 64 := by omega
  have number : 64 * block + index = 4 * (16 * block) + index := by omega
  rw [byteAt_congr same below, byteAt, dif_pos inside, wordZmm_apply]
  exact congrArg (wordBytes _) number

/-- Registers of a flush. -/
theorem acc_not_constant (legal : params.accepted = true)
    (sums : params.accColSum = true) (inside : block < params.numBlocks) :
    zmmAcc0 + block ∉ constantRegs := by
  have bound := acc_bounds legal sums
  simp only [constantRegs, xmmZero, zmmSel1, zmmSel11, zmmSel2, zmmSel21,
    zmmAcc0, List.mem_cons, List.not_mem_nil, or_false, not_or]
  omega

theorem scratch : zmmCvt ∉ constantRegs := by
  decide

/-- Behind the store of a block. -/
theorem AtFlush.next (before : AtFlush params entry words acc
      (panelWords params live) block state)
    (bound : flushedWords (panelWords params live) (block + 1) =
      16 * block + min 16 (panelWords params live - 16 * block))
    {after : State} (gpr : after.gpr = state.gpr)
    (opmask : after.opmask = state.opmask)
    (field : after.field = state.field)
    (memory : after.memory = overlay (region (entry.gpr regColSum)
      (upTo (4 * (16 * block +
        min 16 (panelWords params live - 16 * block))))
      (wordBytes (flushed words acc))) entry.memory)
    (constants : Constants params after)
    (later : ∀ t, block < t →
      after.zmm (zmmAcc0 + t) = state.zmm (zmmAcc0 + t)) :
    AtFlush params entry words acc (panelWords params live) (block + 1)
      after where
  gpr := gpr.trans before.gpr
  opmask := opmask.trans before.opmask
  field := field.trans before.field
  memory := by rw [memory, bound]
  constants := constants
  acc t inside reached :=
    (later t reached).trans (before.acc t inside (Nat.le_of_lt reached))

/-- A block with its accumulator, times 128. -/
def blockSum (state : State) (block : Nat) (loaded : Zmm) : Zmm :=
  zipDwords (· + ·)
    (ofDwords fun lane =>
      dword (state.zmm (zmmAcc0 + block)) lane <<< colSumShift) loaded

theorem dword_blockSum (sum : state.zmm (zmmAcc0 + block) = acc block)
    {keep : Fin 64 → Bool} {lanes : Nat}
    (kept : keptAt keep = upTo (4 * lanes)) (lane : Fin 16)
    (below : lane.val < lanes) :
    dword (blockSum state block (keepBytes keep (wordZmm words block)))
        lane = flushed words acc (16 * block + lane) := by
  have number : (16 * block + lane.val) / 16 = block := by omega
  have place : (⟨(16 * block + lane.val) % 16,
      Nat.mod_lt _ (by decide)⟩ : Fin 16) = lane :=
    Fin.ext (by simp only; omega)
  rw [blockSum, dword_zipDwords, dword_ofDwords, dword_keepBytes kept _ below,
    dword_wordZmm, sum, flushed, shifted, number, place, BitVec.add_comm]

/-- One block of the flush in the masked kernel. -/
theorem flushBlock_masked (legal : params.accepted = true)
    (sums : params.accColSum = true) (masked : params.useMask = true)
    (start : FlushEntry params live words acc entry)
    (fits : 4 * panelWords params live ≤ 2 ^ 64)
    (inside : block < params.numBlocks)
    (before : AtFlush params entry words acc (panelWords params live) block
      state) :
    ∃ after, execAll semantics (params.flushBlock block) state =
        some after ∧
      AtFlush params entry words acc (panelWords params live) (block + 1)
        after := by
  rcases start.mask masked with ⟨narrow, bits⟩
  have bounds := words_block legal (fun _ => narrow) inside
  have first : block = 0 := by
    have width := (accepted_iff.mp legal).2.2.2 masked
    unfold numBlocks blockN at inside
    omega
  have lanes : min 16 (panelWords params live - 16 * block) = live := by
    rw [first, panelWords, if_pos masked]
    exact Nat.min_eq_right narrow
  have kept : keptAt (state.selected 32 .zmm (some maskLt16)) =
      upTo (4 * min 16 (panelWords params live - 16 * block)) := by
    rw [lanes]
    refine keptAt_masked narrow ?_
    rw [before.opmask]
    exact bits
  have reads := read_words before start bounds.1 fits kept
  have writes := write_words before start bounds.1 fits kept
    (dword_blockSum (before.acc block inside (Nat.le_refl _)) kept)
  let doubled := state.setZmm zmmCvt (ofDwords fun lane =>
    dword (state.zmm (zmmAcc0 + block)) lane <<< colSumShift)
  let loaded := doubled.setZmm (zmmAcc0 + block)
    (keepBytes (state.selected 32 .zmm (some maskLt16))
      (wordZmm words block))
  have loads : exec (.vmovdqu 32 .zmm (zmmAcc0 + block) (some maskLt16)
      (ptr regColSum (block * regBytes))) doubled = some loaded :=
    congrArg (Option.map _) reads
  have apart : zmmCvt ≠ zmmAcc0 + block := by
    unfold zmmCvt zmmAcc0
    omega
  have value : zipDwords (· + ·) (loaded.zmm zmmCvt)
      (loaded.zmm (zmmAcc0 + block)) =
        blockSum state block
          (keepBytes (state.selected 32 .zmm (some maskLt16))
            (wordZmm words block)) := by
    simp [loaded, doubled, blockSum, Function.update_of_ne apart]
  let summed := loaded.setZmm zmmCvt (blockSum state block
    (keepBytes (state.selected 32 .zmm (some maskLt16))
      (wordZmm words block)))
  have adds : exec (.vpaddd zmmCvt zmmCvt (zmmAcc0 + block)) loaded =
      some summed := congrArg (fun sum => some (loaded.setZmm zmmCvt sum)) value
  have stored : summed.zmm zmmCvt = blockSum state block
      (keepBytes (state.selected 32 .zmm (some maskLt16))
        (wordZmm words block)) := by
    simp [summed]
  rw [← stored] at writes
  let after : State := { summed with
    memory := overlay (region (entry.gpr regColSum)
      (upTo (4 * (16 * block +
        min 16 (panelWords params live - 16 * block))))
      (wordBytes (flushed words acc))) entry.memory }
  have stores : exec (.vmovdquStore 32 .zmm (ptr regColSum (block * regBytes))
      (some maskLt16) zmmCvt) summed = some after :=
    congrArg (Option.map _) writes
  have shifts : exec (.vpslld zmmCvt (zmmAcc0 + block) colSumShift) state =
      some doubled := rfl
  refine ⟨after, ?_, before.next bounds.2 rfl rfl rfl rfl ?_ ?_⟩
  · simp only [flushBlock, masked, if_true, execAll, semantics, shifts, loads,
      adds, stores, Option.bind_some]
  · have constants : Constants params summed :=
      ((before.constants.setZmm scratch _).setZmm
        (acc_not_constant legal sums inside) _).setZmm scratch _
    exact ⟨constants.zero, constants.selectors⟩
  · intro t later
    have scratches : zmmAcc0 + t ≠ zmmCvt := by
      unfold zmmCvt zmmAcc0
      omega
    have sums : zmmAcc0 + t ≠ zmmAcc0 + block := by omega
    simp [after, summed, loaded, doubled, Function.update_of_ne scratches,
      Function.update_of_ne sums]

/-- One block of the flush in a kernel without a mask. -/
theorem flushBlock_whole (legal : params.accepted = true)
    (whole : params.useMask = false)
    (start : FlushEntry params live words acc entry)
    (fits : 4 * panelWords params live ≤ 2 ^ 64)
    (inside : block < params.numBlocks)
    (before : AtFlush params entry words acc (panelWords params live) block
      state) :
    ∃ after, execAll semantics (params.flushBlock block) state =
        some after ∧
      AtFlush params entry words acc (panelWords params live) (block + 1)
        after := by
  have unmasked : params.useMask ≠ true := by
    rw [whole]
    exact Bool.false_ne_true
  have bounds := words_block legal (fun masked => (start.mask masked).1)
    inside
  have lanes : min 16 (panelWords params live - 16 * block) = 16 := by
    have divides := Nat.div_mul_le_self params.NR 16
    rw [panelWords, if_neg unmasked]
    unfold numBlocks blockN at inside
    omega
  have kept : keptAt (fun _ => true) =
      upTo (4 * min 16 (panelWords params live - 16 * block)) := by
    rw [lanes, keptAt_all]
  have reads := read_words before start bounds.1 fits kept
  have writes := write_words before start bounds.1 fits kept
    (dword_blockSum (before.acc block inside (Nat.le_refl _)) kept)
  let doubled := state.setZmm zmmCvt (ofDwords fun lane =>
    dword (state.zmm (zmmAcc0 + block)) lane <<< colSumShift)
  let summed := doubled.setZmm zmmCvt
    (blockSum state block (wordZmm words block))
  have shifts : exec (.vpslld zmmCvt (zmmAcc0 + block) colSumShift) state =
      some doubled := rfl
  have value : zipDwords (· + ·) (doubled.zmm zmmCvt) (wordZmm words block) =
      blockSum state block (wordZmm words block) := by
    simp [doubled, blockSum]
  have adds : exec (.vpadddLoad zmmCvt zmmCvt
      (ptr regColSum (block * regBytes))) doubled = some summed :=
    (congrArg (Option.map _) reads).trans
      (congrArg (fun sum => some (doubled.setZmm zmmCvt sum)) value)
  have stored : summed.zmm zmmCvt =
      blockSum state block (wordZmm words block) := by
    simp [summed]
  rw [keepBytes_all, ← stored] at writes
  let after : State := { summed with
    memory := overlay (region (entry.gpr regColSum)
      (upTo (4 * (16 * block +
        min 16 (panelWords params live - 16 * block))))
      (wordBytes (flushed words acc))) entry.memory }
  have stores : exec (.vmovdquStore 32 .zmm (ptr regColSum (block * regBytes))
      none zmmCvt) summed = some after := by
    rw [exec, selected_all]
    exact congrArg (Option.map _) writes
  refine ⟨after, ?_, before.next bounds.2 rfl rfl rfl rfl ?_ ?_⟩
  · simp only [flushBlock, whole, Bool.false_eq_true, if_false, execAll,
      semantics, shifts, adds, stores, Option.bind_some]
  · have constants : Constants params summed :=
      (before.constants.setZmm scratch _).setZmm scratch _
    exact ⟨constants.zero, constants.selectors⟩
  · intro t later
    have scratches : zmmAcc0 + t ≠ zmmCvt := by
      unfold zmmCvt zmmAcc0
      omega
    simp [after, summed, doubled, Function.update_of_ne scratches]

/-- `flushColSum` adds the accumulators to the words. -/
theorem flushColSum_triple (legal : params.accepted = true)
    (sums : params.accColSum = true)
    (start : FlushEntry params live words acc entry)
    (fits : 4 * panelWords params live ≤ 2 ^ 64) :
    Triple semantics (fun state => state = entry) (emit params.flushColSum)
      (AtFlush params entry words acc (panelWords params live)
        params.numBlocks) := by
  unfold flushColSum
  refine (Triple.flatMapRange
    (AtFlush params entry words acc (panelWords params live))
    fun block inside => Triple.all fun state before => ?_).weaken ?_
      fun _ reached => reached
  · cases masked : params.useMask with
    | true =>
        exact flushBlock_masked legal sums masked start fits inside before
    | false =>
        exact flushBlock_whole legal masked start fits inside before
  · rintro state rfl
    refine ⟨rfl, rfl, rfl, ?_, start.constants, fun t inside _ =>
      start.acc t inside⟩
    have none : flushedWords (panelWords params live) 0 = 0 :=
      Nat.zero_min _
    rw [none, Nat.mul_zero, region_zero, overlay_none]

end Flush

/-! ## A panel with its column sums -/

/-- What a panel adds to the word of a column. -/
def columnSum (source : Source) (j : Nat) : BitVec 32 :=
  ((List.range source.k).map fun p =>
    (source.padded p j).signExtend 32).sum <<< colSumShift

/-- The words of a panel behind it. -/
def panelSums (source : Source) (column : Nat) (words : Nat → BitVec 32)
    (j : Nat) : BitVec 32 :=
  words j + columnSum source (column + j)

/-- The accumulators of a panel behind its last row. -/
def panelAcc (source : Source) (column t : Nat) : Zmm :=
  addRows (source.rows column) t source.k fun _ => 0

theorem flushed_panelAcc (source : Source) (column : Nat)
    (words : Nat → BitVec 32) :
    flushed words (panelAcc source column) =
      panelSums source column words := by
  funext j
  have place : blockN * (j / 16) + j % 16 = j := Nat.div_add_mod j 16
  have zero (lane : Fin 16) : dword (fun _ => 0) lane = 0 := by
    change ofBytes (fun _ => 0) = 0
    decide
  simp only [flushed, shifted, panelAcc, addRows, dword_ofDwords, zero,
    zero_add, place, panelSums, columnSum, Source.rows]

/-- What a panel writes to the column sums. -/
def sumWrites (params : PackBGeneratorParams) (source : Source)
    (column : Nat) (words : Nat → BitVec 32) (colSum : BitVec 64) : Writes :=
  if params.accColSum then
    region colSum (upTo (4 * panelWords params source.live))
      (wordBytes (panelSums source column words))
  else fun _ => none

/-- The words that a panel adds to, outside its packed bytes. -/
structure SumData (params : PackBGeneratorParams) (source : Source)
    (words : Nat → BitVec 32) (colSum dst : BitVec 64) (memory : Memory) :
    Prop where
  stored : WordsAt memory colSum (panelWords params source.live) words
  apart : ∀ index < 4 * panelWords params source.live,
    Outside dst (params.NR * source.kcUpdated) (offset colSum index)
  fits : 4 * panelWords params source.live ≤ 2 ^ 64

/-- Behind a panel. -/
structure PanelDone (params : PackBGeneratorParams) (source : Source)
    (column : Nat) (words : Nat → BitVec 32) (dst : BitVec 64)
    (entry state : State) : Prop where
  gpr : ∀ register ∉ panelRegs, state.gpr register = entry.gpr register
  opmask : state.opmask = entry.opmask
  field : state.field = entry.field
  memory : state.memory =
    overlay (sumWrites params source column words (entry.gpr regColSum))
      (overlay (region dst (upTo (params.NR * source.kcUpdated))
        (source.panelImage params.NR column)) entry.memory)
  constants : Constants params state

/-- The registers and accumulators of a panel are set. -/
structure Prepared (params : PackBGeneratorParams) (state entry : State) :
    Prop where
  gpr : ∀ register ∉ panelRegs, entry.gpr register = state.gpr register
  opmask : entry.opmask = state.opmask
  field : entry.field = state.field
  memory : entry.memory = state.memory
  constants : Constants params entry
  zero : params.accColSum = true → ∀ t < params.numBlocks,
    entry.zmm (zmmAcc0 + t) = fun _ => 0

section Panel

variable {params : PackBGeneratorParams} {source : Source} {column : Nat}
variable {words : Nat → BitVec 32} {src dst : Reg64} {state : State}

/-- `zeroColSumAcc`. -/
theorem zeroColSumAcc_triple (legal : params.accepted = true)
    (sums : params.accColSum = true) (entry : State)
    (constants : Constants params entry) :
    Triple semantics (fun state => state = entry)
      (emit params.zeroColSumAcc)
      (fun after => after.gpr = entry.gpr ∧
        Prepared params entry after) := by
  refine (Triple.mapRange (fun count (after : State) =>
    after.gpr = entry.gpr ∧ after.opmask = entry.opmask ∧
      after.field = entry.field ∧ after.memory = entry.memory ∧
      Constants params after ∧
      ∀ t < count, after.zmm (zmmAcc0 + t) = fun _ => 0) ?_).weaken ?_ ?_
  · rintro block inside state ⟨gpr, opmask, field, memory, fixed, zero⟩
    refine ⟨_, rfl, gpr, opmask, field, memory,
      fixed.setZmm (acc_not_constant legal sums inside) _, fun t below => ?_⟩
    by_cases same : t = block
    · funext index
      rw [same, Machine.zip, Machine.setZmm_zmm, Function.update_self]
      simp [Width.clip, keepBytes]
    · have apart : zmmAcc0 + t ≠ zmmAcc0 + block := fun equal =>
        same (Nat.add_left_cancel equal)
      rw [Machine.zip, Machine.setZmm_zmm, Function.update_of_ne apart]
      exact zero t (by omega)
  · rintro state rfl
    exact ⟨rfl, rfl, rfl, rfl, constants, fun t none => absurd none (by omega)⟩
  · rintro state ⟨gpr, opmask, field, memory, fixed, zero⟩
    exact ⟨gpr, fun register _ => congrFun gpr register, opmask, field,
      memory, fixed, fun _ => zero⟩

/-- The registers and the accumulators of a panel are set. -/
theorem prepare_triple (legal : params.accepted = true)
    (apart : dst ≠ regSrcRow) (constants : Constants params state) :
    Triple semantics (fun entry => entry = state)
      (emit ([.mov regSrcRow (.reg src), .mov regDstRow (.reg dst)] ++
        if params.accColSum then params.zeroColSumAcc else []))
      (fun entry => Prepared params state entry ∧
        entry.gpr regSrcRow = state.gpr src ∧
        entry.gpr regDstRow = state.gpr dst) := by
  rw [emit_append]
  let moved := (state.setGpr regSrcRow (state.gpr src)).setGpr regDstRow
    (state.gpr dst)
  have moves : Triple semantics (fun entry => entry = state)
      (emit [.mov regSrcRow (.reg src), .mov regDstRow (.reg dst)])
      (fun entry => entry = moved) := by
    refine Triple.all ?_
    rintro entry rfl
    refine ⟨_, rfl, ?_⟩
    simp [moved, Operand.value, Machine.setGpr, Function.update_of_ne apart]
  have row : moved.gpr regSrcRow = state.gpr src := by
    simp [moved, Function.update_of_ne]
  have out : moved.gpr regDstRow = state.gpr dst := by
    simp [moved]
  have others : ∀ register ∉ panelRegs,
      moved.gpr register = state.gpr register := by
    intro register outside
    simp only [panelRegs, List.mem_cons, List.not_mem_nil, or_false,
      not_or] at outside
    simp [moved, Function.update_of_ne, outside]
  refine moves.seq ?_
  cases sums : params.accColSum with
  | true =>
      refine (zeroColSumAcc_triple legal sums moved
        ⟨constants.zero, constants.selectors⟩).weaken
          (fun _ same => same) ?_
      rintro entry ⟨gpr, prepared⟩
      refine ⟨{ prepared with gpr := fun register outside => ?_ }, ?_, ?_⟩
      · exact (prepared.gpr register outside).trans (others register outside)
      · rw [gpr, row]
      · rw [gpr, out]
  | false =>
      refine Triple.nil ?_
      rintro entry rfl
      exact ⟨⟨others, rfl, rfl, rfl, ⟨constants.zero, constants.selectors⟩,
        fun impossible => absurd (sums.symm.trans impossible)
          Bool.false_ne_true⟩, row, out⟩

/-- What a panel needs is there behind its preparation. -/
theorem PanelData.prepared {address place : BitVec 64} {entry : State}
    (data : PanelData params source column address place state)
    (prepared : Prepared params state entry) :
    PanelData params source column address place entry where
  stride := (prepared.gpr regLdbBytes (by decide)).trans data.stride
  depth := (prepared.gpr regK (by decide)).trans data.depth
  whole := (prepared.gpr regKFull (by decide)).trans data.whole
  small := data.small
  width := by
    rw [prepared.opmask]
    exact data.width
  stored := by
    rw [prepared.memory]
    exact data.stored
  mapped := by
    rw [prepared.memory]
    exact data.mapped
  extent := data.extent
  constants := prepared.constants

/-- The packed bytes of a whole panel. -/
theorem whole_panel (params : PackBGeneratorParams) (source : Source) :
    4 * params.NR * ((source.k + 3) / 4) = params.NR * source.kcUpdated := by
  rw [kcUpdated_eq]
  ring

/-- One panel with its column sums. -/
theorem panel_triple (legal : params.accepted = true)
    (apart : dst ≠ regSrcRow)
    (data : PanelData params source column (state.gpr src) (state.gpr dst)
      state)
    (sums : params.accColSum = true → SumData params source words
      (state.gpr regColSum) (state.gpr dst) state.memory) :
    Triple semantics (fun entry => entry = state) (params.panel src dst)
      (PanelDone params source column words (state.gpr dst) state) := by
  rintro entry rfl
  rcases prepare_triple legal apart data.constants entry rfl with
    ⟨ready, prepares, prepared, row, out⟩
  have start : PanelEntry params source column ready := by
    unfold PanelEntry
    rw [row, out]
    exact PanelData.prepared data prepared
  rcases generatePanelBody_triple legal start (fun _ _ => 0)
    prepared.zero ready rfl with ⟨packed, packs, inPanel⟩
  have colSum : packed.gpr regColSum = entry.gpr regColSum :=
    (inPanel.gpr regColSum (by decide)).trans
      (prepared.gpr regColSum (by decide))
  have gpr : ∀ register ∉ panelRegs,
      packed.gpr register = entry.gpr register := fun register outside =>
    (inPanel.gpr register outside).trans (prepared.gpr register outside)
  have memory : packed.memory = overlay (region (entry.gpr dst)
      (upTo (params.NR * source.kcUpdated))
      (source.panelImage params.NR column)) entry.memory := by
    rw [inPanel.memory, whole_panel, out, prepared.memory]
  unfold PackBGeneratorParams.panel
  cases summed : params.accColSum with
  | true =>
      have area := sums summed
      rw [summed, if_pos rfl] at prepares
      have flush : FlushEntry params source.live words
          (panelAcc source column) packed := by
        refine ⟨inPanel.constants, inPanel.acc summed, fun index below => ?_,
          fun masked => ?_⟩
        · rw [memory, colSum,
            overlay_miss (region_outside (area.apart index below))]
          exact area.stored index below
        · have width := data.width
          rw [if_pos masked] at width
          rw [inPanel.opmask, prepared.opmask]
          exact width.2
      rcases flushColSum_triple legal summed flush area.fits packed rfl with
        ⟨after, flushes, done⟩
      refine ⟨after, (prepares.append packs).append flushes, ?_⟩
      refine ⟨fun register outside => ?_, ?_, ?_, ?_, done.constants⟩
      · exact (congrFun done.gpr register).trans (gpr register outside)
      · rw [done.opmask, inPanel.opmask, prepared.opmask]
      · rw [done.field, inPanel.field, prepared.field]
      · rw [done.memory, words_all legal fun masked => (flush.mask masked).1,
          flushed_panelAcc, memory, colSum, sumWrites, summed, if_pos rfl]
  | false =>
      rw [summed, if_neg Bool.false_ne_true] at prepares
      refine ⟨packed, (prepares.append packs).append (Exec.nil packed), gpr,
        ?_, ?_, ?_, inPanel.constants⟩
      · rw [inPanel.opmask, prepared.opmask]
      · rw [inPanel.field, prepared.field]
      · rw [sumWrites, summed, if_neg Bool.false_ne_true, overlay_none,
          memory]

end Panel

end AoclDlp.Jit.PackBSums
