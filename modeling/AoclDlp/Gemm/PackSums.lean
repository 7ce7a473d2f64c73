import AoclDlp.Gemm.PackContents

/-!
# The column sums behind the panel

The packer of a column clears its sum in the first round of a `jc` step and
adds its rows in every round.  No mate touches the word, and no operation
between two packings changes it.
-/

namespace AoclDlp.Gemm.PackSums

open AoclDlp.Foundations.Accumulation
open AoclDlp.Foundations.RoundBarrier
open AoclDlp.Gemm.PackContents
open AoclDlp.Gemm.PackProtocol
open AoclDlp.Gemm.Rounds
open AoclDlp.Gemm.Rowvar
open AoclDlp.Layout.ReorderRef
open AoclDlp.Layout.S8s8s32
open AoclDlp.Threading.WorkPartition

variable {args : GemmArgs} {b : Bytes} {rsB csB : Nat}
    {round : PackRound} {col : Nat}

/-! ## One operation -/

/-- The rows of a round in one of its columns. -/
def rowSum (b : Bytes) (rsB csB : Nat) (round : PackRound) (col : Nat) :
    BitVec 32 :=
  ((List.range round.kc0).map fun kr =>
    element b rsB csB (round.pc + kr) (round.jc + col)).sum

/-- What an operation of a round does to the sum of a column. -/
def sumStep (b : Bytes) (rsB csB : Nat) (round : PackRound) (col : Nat)
    (op : GemmOp) (word : BitVec 32) : BitVec 32 :=
  match op with
  | .clear _ _ start stop => if InRange (start, stop) col then 0 else word
  | .pack _ _ start stop =>
      if InRange (start, stop) col then
        word + 128 * rowSum b rsB csB round col
      else word
  | .publish | .receive | .kernel _ _ | .free => word

/-- An operation that writes, writes the panel or the sums of the round. -/
def OfRound (round : PackRound) : GemmOp → Prop
  | .clear _ columnSum _ _ => columnSum = round.columnSum
  | .pack _ block _ _ => block = round
  | .publish | .receive | .kernel _ _ | .free => True

theorem clear_sum (start stop : Nat) (words : Nat → BitVec 32) :
    clearWords (round.columnSum + 4 * start) (stop - start) words
        (round.columnSum + 4 * col) =
      if InRange (start, stop) col then 0
      else words (round.columnSum + 4 * col) := by
  by_cases inRange : InRange (start, stop) col
  · have lower : start ≤ col := inRange.1
    have upper : col < stop := inRange.2
    rw [if_pos inRange]
    have place : round.columnSum + 4 * col =
        round.columnSum + 4 * start + 4 * (col - start) := by omega
    rw [place]
    exact clearWords_apply (by omega) words
  · rw [if_neg inRange]
    apply clearWords_frame
    intro idx below same
    apply inRange
    change start ≤ col ∧ col < stop
    omega

theorem pack_sum (legal : S8Legal args.blksz) (start stop : Nat)
    (words : Nat → BitVec 32) :
    addAll
        (columnSumWrites args.blksz
          (rsB * round.pc + (round.jc + start) * csB) (stop - start)
          round.kc0 rsB csB (round.columnSum + 4 * start) b)
        words (round.columnSum + 4 * col) =
      if InRange (start, stop) col then
        words (round.columnSum + 4 * col) +
          128 * rowSum b rsB csB round col
      else words (round.columnSum + 4 * col) := by
  have same (other : Nat) : round.columnSum + 4 * col =
      round.columnSum + 4 * start + 4 * other ↔ col = start + other := by
    omega
  rw [addAll_apply, columnSumWrites_added legal]
  simp only [same]
  rw [sum_range_indicator start (stop - start) col]
  by_cases inRange : InRange (start, stop) col
  · have lower : start ≤ col := inRange.1
    have upper : col < stop := inRange.2
    rw [if_pos inRange, if_pos ⟨lower, by omega⟩]
    rcases Nat.exists_eq_add_of_le lower with ⟨offset, rfl⟩
    congr 2
    unfold rowSum element
    congr 1
    apply List.map_congr_left
    intro kr _
    rw [Nat.add_sub_cancel_left]
    congr 2
    ring
  · rw [if_neg inRange, if_neg, add_zero]
    rintro ⟨lower, upper⟩
    apply inRange
    change start ≤ col ∧ col < stop
    omega

/-- The sum of a column behind an operation of a round. -/
theorem blockStep_sum (legal : S8Legal args.blksz) {op : GemmOp}
    (ofRound : OfRound round op) (buffer : ReorderBuffer) :
    (blockStep args b rsB csB op buffer).words
        (round.columnSum + 4 * col) =
      sumStep b rsB csB round col op
        (buffer.words (round.columnSum + 4 * col)) := by
  cases op with
  | publish => rfl
  | receive => rfl
  | kernel number call => rfl
  | free => rfl
  | clear number columnSum start stop =>
      have same : columnSum = round.columnSum := ofRound
      rw [same]
      exact clear_sum start stop buffer.words
  | pack number block start stop =>
      have same : block = round := ofRound
      rw [same]
      exact pack_sum legal start stop buffer.words

theorem blockAfter_sum (legal : S8Legal args.blksz)
    {log : List (Event GemmOp)}
    (ofRound : ∀ event, event ∈ log → OfRound round event.act)
    (buffer : ReorderBuffer) :
    (blockAfter args b rsB csB log buffer).words
        (round.columnSum + 4 * col) =
      log.foldl
        (fun word event => sumStep b rsB csB round col event.act word)
        (buffer.words (round.columnSum + 4 * col)) := by
  induction log generalizing buffer with
  | nil => rfl
  | cons event rest ih =>
      rw [List.foldl_cons,
        ← blockStep_sum legal (ofRound event List.mem_cons_self)]
      exact ih (fun other member =>
        ofRound other (List.mem_cons_of_mem _ member)) _

/-! ## One round -/

section Round

variable {state : State GemmOp} {thread number : Nat}

/-- What the threads of a group do in the segment that packs a round. -/
theorem packing_segment (packing : PacksB args)
    (inv : args.team.Inv state) (inTeam : thread < args.team.count)
    (found : (args.packRounds thread)[number]? = some round)
    {event : Event GemmOp} (logged : event ∈ state.log)
    (sameGroup : args.team.group event.thread = args.team.group thread)
    (segment : event.segment = 2 * number + 1) :
    event.act = .receive ∨
      event.act = .clear number round.columnSum
        (args.packRange event.thread round.nc0).1
        (args.packRange event.thread round.nc0).2 ∨
      event.act = .pack number round
        (args.packRange event.thread round.nc0).1
        (args.packRange event.thread round.nc0).2 := by
  have mates : args.team.Mates thread event.thread :=
    ⟨inTeam, (inv.logged event logged).1, sameGroup⟩
  have placed := placed_of_logged packing inv logged
  have inside : number < (args.packRounds event.thread).length := by
    rw [packRounds_eq mates]
    exact (List.getElem?_eq_some_iff.mp found).1
  rw [segment] at placed
  have same {index : Nat} {other : PackRound}
      (there : (args.packRounds event.thread)[index]? = some other)
      (place : index = number) : other = round := by
    rw [packRounds_eq mates, place, found] at there
    exact (Option.some.inj there).symm
  generalize event.act = act at placed
  generalize index : 2 * number + 1 = place at placed
  cases placed with
  | publish inside chief => omega
  | receive inside => exact Or.inl rfl
  | kernel there calls => omega
  | free chief => omega
  | @clear other block there packs first =>
      have round : other = number := by omega
      rw [same there round, round]
      exact Or.inr (Or.inl rfl)
  | @pack other block there packs =>
      have round : other = number := by omega
      rw [same there round, round]
      exact Or.inr (Or.inr rfl)

theorem ofRound_of_segment (packing : PacksB args)
    (inv : args.team.Inv state) (inTeam : thread < args.team.count)
    (found : (args.packRounds thread)[number]? = some round)
    {event : Event GemmOp} (logged : event ∈ state.log)
    (sameGroup : args.team.group event.thread = args.team.group thread)
    (segment : event.segment = 2 * number + 1) :
    OfRound round event.act := by
  rcases packing_segment packing inv inTeam found logged sameGroup
    segment with act | act | act
  · rw [act]
    trivial
  · rw [act]
    rfl
  · rw [act]
    rfl

/-- The packer of a column, in one round. -/
theorem sum_of_packer {packer : Nat} (packs : Packs args packer round)
    (inRange : InRange (args.packRange packer round.nc0) col)
    (word : BitVec 32) :
    (args.packSegment packer number round).foldl
        (fun current op => sumStep b rsB csB round col op current) word =
      (if round.pc = 0 then 0 else word) +
        128 * rowSum b rsB csB round col := by
  unfold Packs at packs
  unfold GemmArgs.packSegment
  dsimp only
  rw [if_pos packs]
  by_cases first : round.pc = 0
  · rw [if_pos first, if_pos first]
    simp [sumStep, inRange]
  · rw [if_neg first, if_neg first]
    simp [sumStep, inRange]

/-- What a group does in the segment that packs a round. -/
def packingLog (args : GemmArgs) (state : State GemmOp)
    (thread number : Nat) : List (Event GemmOp) :=
  (args.team.groupLog (args.team.group thread) state.log).filter
    fun event => event.segment = 2 * number + 1

theorem mem_packingLog {event : Event GemmOp} :
    event ∈ packingLog args state thread number ↔
      event ∈ state.log ∧
        args.team.group event.thread = args.team.group thread ∧
        event.segment = 2 * number + 1 := by
  unfold packingLog
  rw [List.mem_filter, Team.mem_groupLog, decide_eq_true_eq, and_assoc]

/-- A thread whose part does not hold a column leaves the sum alone. -/
theorem sumStep_other (packing : PacksB args) (inv : args.team.Inv state)
    (inTeam : thread < args.team.count)
    (found : (args.packRounds thread)[number]? = some round)
    {event : Event GemmOp}
    (inLog : event ∈ packingLog args state thread number)
    (outside : ¬ InRange (args.packRange event.thread round.nc0) col)
    (word : BitVec 32) :
    sumStep b rsB csB round col event.act word = word := by
  rcases mem_packingLog.mp inLog with ⟨logged, sameGroup, segment⟩
  rcases packing_segment packing inv inTeam found logged sameGroup
    segment with act | act | act
  · rw [act]
    rfl
  · rw [act]
    exact if_neg outside
  · rw [act]
    exact if_neg outside

/-- What a mate does in the segment is its packing segment. -/
theorem packingLog_packer (packing : PacksB args)
    (inv : args.team.Inv state) {packer : Nat}
    (mates : args.team.Mates thread packer)
    (found : (args.packRounds thread)[number]? = some round)
    (behind : 2 * number + 1 < (state.cursor thread).passed) :
    (packingLog args state thread number).filter
        (fun event => event.thread = packer) =
      (args.packSegment packer number round).map
        fun op => ⟨packer, 2 * number + 1, op⟩ := by
  have program : (args.team.program packer)[2 * number + 1]? =
      some (args.packSegment packer number round) := by
    change (args.program packer)[2 * number + 1]? = _
    rw [← packRounds_eq mates] at found
    rw [program_eq packing, packSegments_pack packer 0 _ [] found,
      Nat.zero_add]
  unfold packingLog
  rw [List.filter_comm, ← mates.group]
  exact (congrArg _ (Team.ownLog_groupLog packer state.log)).trans
    (inv.ownLog_segment mates behind program)

/-- Of the threads of a group, only the packer of a column changes its sum. -/
theorem sum_of_round (legal : S8Legal args.blksz) (packing : PacksB args)
    (inv : args.team.Inv state) (inTeam : thread < args.team.count)
    (found : (args.packRounds thread)[number]? = some round)
    (behind : 2 * number + 1 < (state.cursor thread).passed)
    (column : col < round.nc0) (buffer : ReorderBuffer) :
    (blockAfter args b rsB csB (packingLog args state thread number)
        buffer).words (round.columnSum + 4 * col) =
      (if round.pc = 0 then 0
        else buffer.words (round.columnSum + 4 * col)) +
        128 * rowSum b rsB csB round col := by
  rcases existsUnique_packer inTeam column with
    ⟨packer, ⟨mates, inRange⟩, only⟩
  have ofRound : ∀ event, event ∈ packingLog args state thread number →
      OfRound round event.act := by
    intro event inLog
    rcases mem_packingLog.mp inLog with ⟨logged, sameGroup, segment⟩
    exact ofRound_of_segment packing inv inTeam found logged sameGroup segment
  have others : ∀ word event,
      event ∈ packingLog args state thread number →
      sumStep b rsB csB round col event.act word =
        if decide (event.thread = packer) = true then
          sumStep b rsB csB round col event.act word
        else word := by
    intro word event inLog
    by_cases own : event.thread = packer
    · rw [if_pos (decide_eq_true own)]
    · rw [if_neg (by simpa using own)]
      rcases mem_packingLog.mp inLog with ⟨logged, sameGroup, -⟩
      apply sumStep_other packing inv inTeam found inLog
      intro inPart
      exact own (only event.thread
        ⟨⟨inTeam, (inv.logged event logged).1, sameGroup⟩, inPart⟩)
  rw [blockAfter_sum legal ofRound, List.foldl_ext _ _ _ others,
    ← List.foldl_filter,
    packingLog_packer packing inv mates found behind, List.foldl_map]
  exact sum_of_packer (packs_of_inRange column inRange) inRange _

/-! ## All rounds of a step -/

/-- Operations that write in no round leave the block alone. -/
theorem blockAfter_quiet {log : List (Event GemmOp)}
    (quiet : ∀ event, event ∈ log → ∀ later, ¬ WritesRound later event.act)
    (buffer : ReorderBuffer) :
    blockAfter args b rsB csB log buffer = buffer := by
  induction log generalizing buffer with
  | nil => rfl
  | cons event rest ih =>
      have head : blockStep args b rsB csB event.act buffer = buffer := by
        have silent := quiet event List.mem_cons_self
        generalize event.act = act at silent
        cases act with
        | publish => rfl
        | receive => rfl
        | kernel number call => rfl
        | free => rfl
        | clear number columnSum start stop =>
            exact absurd rfl (silent number)
        | pack number block start stop => exact absurd rfl (silent number)
      refine (ih (fun other member =>
        quiet other (List.mem_cons_of_mem _ member)) _).trans head

/-- What a group does before a segment. -/
def groupBefore (args : GemmArgs) (state : State GemmOp)
    (thread bound : Nat) : List (Event GemmOp) :=
  (args.team.groupLog (args.team.group thread) state.log).filter
    fun event => event.segment < bound

/-- The segment between two packings leaves the block alone. -/
theorem groupBefore_even (packing : PacksB args) (inv : args.team.Inv state)
    (thread number : Nat) (buffer : ReorderBuffer) :
    blockAfter args b rsB csB
        (groupBefore args state thread (2 * number + 2 + 1)) buffer =
      blockAfter args b rsB csB
        (groupBefore args state thread (2 * number + 2)) buffer := by
  have split := Team.filter_segment_succ
    (inv.groupLog_ordered (args.team.group thread)) (2 * number + 2)
  unfold groupBefore
  rw [split, blockAfter, List.foldl_append]
  apply blockAfter_quiet
  intro event member later writes
  rcases List.mem_filter.mp member with ⟨inGroup, segment⟩
  have here := of_decide_eq_true segment
  have place := (placed_of_logged packing inv
    (Team.mem_groupLog.mp inGroup).1).writes writes
  omega

theorem sum_upTo (b : Bytes) (rsB csB : Nat) (round : PackRound)
    (col : Nat) :
    ((List.range (round.pc + round.kc0)).map fun p =>
      element b rsB csB p (round.jc + col)).sum =
        ((List.range round.pc).map fun p =>
          element b rsB csB p (round.jc + col)).sum +
          rowSum b rsB csB round col := by
  rw [List.range_add, List.map_append, List.sum_append, List.map_map]
  rfl

/-- Behind the packing of a round, the sum of a column covers the rows up to
the end of the round. -/
theorem sum_after_round (legal : S8Legal args.blksz)
    (packing : PacksB args) (inv : args.team.Inv state)
    (inTeam : thread < args.team.count)
    (found : (args.packRounds thread)[number]? = some round)
    (behind : 2 * number + 1 < (state.cursor thread).passed)
    (column : col < round.nc0) (buffer : ReorderBuffer) :
    (blockAfter args b rsB csB
        (groupBefore args state thread (2 * number + 2)) buffer).words
        (round.columnSum + 4 * col) =
      128 * ((List.range (round.pc + round.kc0)).map fun p =>
        element b rsB csB p (round.jc + col)).sum := by
  induction number using Nat.strong_induction_on generalizing round with
  | h number ih =>
      have split : groupBefore args state thread (2 * number + 1 + 1) =
          groupBefore args state thread (2 * number + 1) ++
            packingLog args state thread number :=
        Team.filter_segment_succ
          (inv.groupLog_ordered (args.team.group thread)) _
      have last := @sum_of_round args b rsB csB round col state thread
        number legal packing inv inTeam found behind column
        (blockAfter args b rsB csB
          (groupBefore args state thread (2 * number + 1)) buffer)
      rw [split, blockAfter, List.foldl_append]
      refine last.trans ?_
      rw [sum_upTo, mul_add]
      congr 1
      by_cases first : round.pc = 0
      · rw [if_pos first, first, List.range_zero, List.map_nil,
          List.sum_nil, mul_zero]
      · rw [if_neg first]
        rcases linked_packRounds legal.KC_pos thread number round found first
          with ⟨before, earlier, rfl, inside, continues⟩
        have earlierSum := ih before (Nat.lt_succ_self before) inside
          (by omega) (continues.nc0 ▸ column)
        rw [continues.pc, continues.jc, continues.columnSum,
          ← groupBefore_even packing inv] at earlierSum
        exact earlierSum

/-- The sums that the kernels of a last round read cover all rows. -/
theorem panel_sums (legal : S8Legal args.blksz)
    (operand : args.b = .pack b rsB csB)
    (reachable : args.team.machine.Reachable state)
    (heap : Nat → ReorderBuffer) (c : Nat → BitVec 32)
    (stands : AtKernels args state thread number round)
    (last : args.IsLastK round.pc) (column : col < round.nc0) :
    ((args.memoryAfter state.log (GemmMemory.start heap c)).heap
        (chief args thread)).words (round.columnSum + 4 * col) =
      128 * ((List.range args.k).map fun p =>
        element b rsB csB p (round.jc + col)).sum := by
  have packing : PacksB args := ⟨b, rsB, csB, operand⟩
  have inv := Team.inv_of_reachable reachable
  have shape := roundShape legal.NC_pos legal.KC_pos
    (List.mem_of_getElem? stands.found)
  have contents : (args.memoryAfter state.log
      (GemmMemory.start heap c)).heap (chief args thread) = _ :=
    heap_of_reachable operand reachable heap c (args.team.group thread)
  have all : args.team.groupLog (args.team.group thread) state.log =
      groupBefore args state thread (2 * number + 2 + 1) := by
    symm
    apply List.filter_eq_self.mpr
    intro event member
    rcases Team.mem_groupLog.mp member with ⟨logged, sameGroup⟩
    have latest := stands.latest event logged sameGroup
    exact decide_eq_true (Nat.lt_succ_of_le latest)
  have depth : round.pc + round.kc0 = args.k := by
    have bound : args.k ≤ round.pc + args.blksz.KC := last
    have inside := shape.row_lt
    rw [shape.kc0_eq]
    omega
  rw [contents, all, groupBefore_even packing inv, ← depth]
  exact sum_after_round legal packing inv stands.inTeam stands.found
    (by rw [stands.passed]; omega) column _

end Round

end AoclDlp.Gemm.PackSums
