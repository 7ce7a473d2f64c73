import AoclDlp.Gemm.Rowvar

/-!
# The shared pack buffer

The threads of one `jc` work id pack a panel together and multiply from it.
Barriers separate the publication of the buffer, the packing of a panel and
the kernel calls on it, and every segment of a program belongs to one of these
kinds.  An operation that a thread has not finished therefore rules out the
conflicting operations of its mates, in every round.
-/

namespace AoclDlp.Gemm.PackProtocol

open AoclDlp.Foundations.RoundBarrier
open AoclDlp.Foundations.Rounding
open AoclDlp.Gemm.Rowvar
open AoclDlp.Layout.Chunk
open AoclDlp.Layout.Panel
open AoclDlp.Layout.S8s8s32
open AoclDlp.Threading.TaskRange
open AoclDlp.Threading.WorkPartition

variable {args : GemmArgs}

/-! ## The place of an operation in a program -/

/-- A thread packs a part of the panel of a round. -/
def Packs (args : GemmArgs) (tid : Nat) (round : PackRound) : Prop :=
  (args.packRange tid round.nc0).1 < (args.packRange tid round.nc0).2 ∧
    (args.packRange tid round.nc0).1 < round.jc + round.nc0

/-- A thread calls the micro-kernel on the panel of a round. -/
def Calls (args : GemmArgs) (tid : Nat) (round : PackRound)
    (call : KernelCall) : Prop :=
  ∃ ic, ic ∈ pcLoop (gemmIcRange (args.thread tid) args.m
      args.blksz.MR).2 args.blksz.MC
      (gemmIcRange (args.thread tid) args.m args.blksz.MR).2
      (gemmIcRange (args.thread tid) args.m args.blksz.MR).1 ∧
    call ∈ jrLoop args.blksz.NR ⟨round.jc, round.nc0, round.jc, 0, 0⟩
      ⟨round.pc, round.kc0⟩ ic 0 round.columnSum round.nc0 0 0

/-- The segments of the operations of a thread in the `PACK` branch. -/
inductive Placed (args : GemmArgs) (tid : Nat) : Nat → GemmOp → Prop where
  | publish {number : Nat} :
      number < (args.packRounds tid).length → args.AmOchief tid →
        Placed args tid (2 * number) .publish
  | receive {number : Nat} :
      number < (args.packRounds tid).length →
        Placed args tid (2 * number + 1) .receive
  | clear {number : Nat} {round : PackRound} :
      (args.packRounds tid)[number]? = some round →
      Packs args tid round → round.pc = 0 →
        Placed args tid (2 * number + 1)
          (.clear number round.columnSum (args.packRange tid round.nc0).1
            (args.packRange tid round.nc0).2)
  | pack {number : Nat} {round : PackRound} :
      (args.packRounds tid)[number]? = some round →
      Packs args tid round →
        Placed args tid (2 * number + 1)
          (.pack number round (args.packRange tid round.nc0).1
            (args.packRange tid round.nc0).2)
  | kernel {number : Nat} {round : PackRound} {call : KernelCall} :
      (args.packRounds tid)[number]? = some round →
      Calls args tid round call →
        Placed args tid (2 * number + 2) (.kernel number call)
  | free :
      args.AmOchief tid →
        Placed args tid (2 * (args.packRounds tid).length + 1) .free

/-- Segments of a program, counted from any round on. -/
theorem mem_packSegments (tid number : Nat) (rounds : List PackRound)
    (before : List GemmOp) (index : Nat) (op : GemmOp) :
    (∃ segment,
        (args.packSegments tid number rounds before)[index]? =
          some segment ∧ op ∈ segment) ↔
      (index = 0 ∧ op ∈ before) ∨
        (∃ r round, rounds[r]? = some round ∧
          ((index = 2 * r ∧ op ∈ args.publishSegment tid) ∨
            (index = 2 * r + 1 ∧
              op ∈ args.packSegment tid (number + r) round) ∨
            (index = 2 * r + 2 ∧
              op ∈ args.kernelSegment tid (number + r) round))) ∨
        (index = 2 * rounds.length + 1 ∧ op ∈ args.freeSegment tid) := by
  induction rounds generalizing number before index with
  | nil =>
      rw [GemmArgs.packSegments]
      match index with
      | 0 => simp
      | 1 => simp
      | index + 2 => simp
  | cons first rest ih =>
      rw [GemmArgs.packSegments]
      match index with
      | 0 =>
          constructor
          · rintro ⟨segment, found, member⟩
            rw [List.getElem?_cons_zero, Option.some.injEq] at found
            rw [← found] at member
            rcases List.mem_append.mp member with old | now
            · exact Or.inl ⟨rfl, old⟩
            · exact Or.inr (Or.inl ⟨0, first, rfl, Or.inl ⟨rfl, now⟩⟩)
          · rintro (⟨-, old⟩ | ⟨r, round, found, place⟩ | ⟨last, -⟩)
            · exact ⟨_, rfl, List.mem_append_left _ old⟩
            · rcases place with ⟨-, now⟩ | ⟨wrong, -⟩ | ⟨wrong, -⟩
              · exact ⟨_, rfl, List.mem_append_right _ now⟩
              · omega
              · omega
            · omega
      | 1 =>
          constructor
          · rintro ⟨segment, found, member⟩
            rw [List.getElem?_cons_succ, List.getElem?_cons_zero,
              Option.some.injEq] at found
            rw [← found] at member
            exact Or.inr (Or.inl
              ⟨0, first, rfl, Or.inr (Or.inl ⟨rfl, member⟩)⟩)
          · rintro (⟨wrong, -⟩ | ⟨r, round, found, place⟩ | ⟨last, -⟩)
            · omega
            · rcases place with ⟨wrong, -⟩ | ⟨here, now⟩ | ⟨wrong, -⟩
              · omega
              · have zero : r = 0 := by omega
                subst zero
                rw [List.getElem?_cons_zero, Option.some.injEq] at found
                subst found
                exact ⟨_, rfl, now⟩
              · omega
            · rw [List.length_cons] at last
              omega
      | index + 2 =>
          rw [List.getElem?_cons_succ, List.getElem?_cons_succ, ih]
          constructor
          · rintro (⟨rfl, member⟩ | ⟨r, round, found, place⟩ | ⟨last, member⟩)
            · exact Or.inr (Or.inl
                ⟨0, first, rfl, Or.inr (Or.inr ⟨rfl, member⟩)⟩)
            · have shift : number + 1 + r = number + (r + 1) := by omega
              rw [shift] at place
              refine Or.inr (Or.inl ⟨r + 1, round, found, ?_⟩)
              rcases place with ⟨here, now⟩ | ⟨here, now⟩ | ⟨here, now⟩
              · exact Or.inl ⟨by omega, now⟩
              · exact Or.inr (Or.inl ⟨by omega, now⟩)
              · exact Or.inr (Or.inr ⟨by omega, now⟩)
            · refine Or.inr (Or.inr ⟨?_, member⟩)
              rw [List.length_cons]
              omega
          · rintro (⟨wrong, -⟩ | ⟨r, round, found, place⟩ | ⟨last, member⟩)
            · omega
            · cases r with
              | zero =>
                  rw [List.getElem?_cons_zero, Option.some.injEq] at found
                  subst found
                  rcases place with ⟨wrong, -⟩ | ⟨wrong, -⟩ | ⟨here, now⟩
                  · omega
                  · omega
                  · exact Or.inl ⟨by omega, now⟩
              | succ r =>
                  rw [List.getElem?_cons_succ] at found
                  have shift : number + (r + 1) = number + 1 + r := by omega
                  rw [shift] at place
                  refine Or.inr (Or.inl ⟨r, round, found, ?_⟩)
                  rcases place with ⟨here, now⟩ | ⟨here, now⟩ | ⟨here, now⟩
                  · exact Or.inl ⟨by omega, now⟩
                  · exact Or.inr (Or.inl ⟨by omega, now⟩)
                  · exact Or.inr (Or.inr ⟨by omega, now⟩)
            · rw [List.length_cons] at last
              exact Or.inr (Or.inr ⟨by omega, member⟩)

theorem mem_packSegment {tid number : Nat} {round : PackRound}
    {op : GemmOp} :
    op ∈ args.packSegment tid number round ↔
      op = .receive ∨ (Packs args tid round ∧
        ((round.pc = 0 ∧ op = .clear number round.columnSum
            (args.packRange tid round.nc0).1
            (args.packRange tid round.nc0).2) ∨
          op = .pack number round (args.packRange tid round.nc0).1
            (args.packRange tid round.nc0).2)) := by
  unfold GemmArgs.packSegment Packs
  dsimp only
  rw [List.mem_cons]
  by_cases packs : (args.packRange tid round.nc0).1 <
      (args.packRange tid round.nc0).2 ∧
    (args.packRange tid round.nc0).1 < round.jc + round.nc0
  · by_cases first : round.pc = 0
    · simp [packs, first]
    · simp [packs, first]
  · simp [packs]

theorem mem_kernelSegment {tid number : Nat} {round : PackRound}
    {op : GemmOp} :
    op ∈ args.kernelSegment tid number round ↔
      ∃ call, Calls args tid round call ∧ op = .kernel number call := by
  unfold GemmArgs.kernelSegment Calls
  dsimp only
  rw [List.mem_map]
  simp only [List.mem_flatMap]
  exact exists_congr fun call => and_congr_right fun _ => eq_comm

/-- `b` is packed at run time. -/
def PacksB (args : GemmArgs) : Prop :=
  ∃ b rsB csB, args.b = .pack b rsB csB

theorem program_eq (packing : PacksB args) (tid : Nat) :
    args.program tid = args.packSegments tid 0 (args.packRounds tid) [] := by
  rcases packing with ⟨b, rsB, csB, operand⟩
  unfold GemmArgs.program
  rw [operand]

/-- The program of a thread holds the placed operations. -/
theorem mem_program_iff (packing : PacksB args) {tid index : Nat}
    {op : GemmOp} :
    (∃ segment, (args.program tid)[index]? = some segment ∧
        op ∈ segment) ↔ Placed args tid index op := by
  rw [program_eq packing, mem_packSegments]
  constructor
  · rintro (⟨-, member⟩ | ⟨r, round, found, place⟩ | ⟨rfl, member⟩)
    · cases member
    · rw [Nat.zero_add] at place
      have inside : r < (args.packRounds tid).length :=
        (List.getElem?_eq_some_iff.mp found).1
      rcases place with ⟨rfl, now⟩ | ⟨rfl, now⟩ | ⟨rfl, now⟩
      · unfold GemmArgs.publishSegment at now
        split at now
        · rw [List.mem_singleton.mp now]
          exact .publish inside ‹_›
        · cases now
      · rcases mem_packSegment.mp now with rfl | ⟨packs, first | last⟩
        · exact .receive inside
        · rw [first.2]
          exact .clear found packs first.1
        · rw [last]
          exact .pack found packs
      · rcases mem_kernelSegment.mp now with ⟨call, calls, rfl⟩
        exact .kernel found calls
    · unfold GemmArgs.freeSegment at member
      split at member
      · rw [List.mem_singleton.mp member]
        exact .free ‹_›
      · cases member
  · intro placed
    cases placed with
    | publish inside chief =>
        refine Or.inr (Or.inl ⟨_, _, List.getElem?_eq_getElem inside,
          Or.inl ⟨rfl, ?_⟩⟩)
        unfold GemmArgs.publishSegment
        rw [if_pos chief]
        exact List.mem_singleton_self _
    | receive inside =>
        exact Or.inr (Or.inl ⟨_, _, List.getElem?_eq_getElem inside,
          Or.inr (Or.inl ⟨rfl, List.mem_cons_self⟩)⟩)
    | clear found packs first =>
        refine Or.inr (Or.inl ⟨_, _, found, Or.inr (Or.inl ⟨rfl, ?_⟩)⟩)
        rw [Nat.zero_add]
        exact mem_packSegment.mpr
          (Or.inr ⟨packs, Or.inl ⟨first, rfl⟩⟩)
    | pack found packs =>
        refine Or.inr (Or.inl ⟨_, _, found, Or.inr (Or.inl ⟨rfl, ?_⟩)⟩)
        rw [Nat.zero_add]
        exact mem_packSegment.mpr (Or.inr ⟨packs, Or.inr rfl⟩)
    | kernel found calls =>
        refine Or.inr (Or.inl ⟨_, _, found, Or.inr (Or.inr ⟨rfl, ?_⟩)⟩)
        rw [Nat.zero_add]
        exact mem_kernelSegment.mpr ⟨_, calls, rfl⟩
    | free chief =>
        refine Or.inr (Or.inr ⟨rfl, ?_⟩)
        unfold GemmArgs.freeSegment
        rw [if_pos chief]
        exact List.mem_singleton_self _

/-- The placed operations are the events of a program. -/
theorem mem_events_iff (packing : PacksB args) {tid : Nat}
    {event : Event GemmOp} :
    event ∈ eventsFrom tid 0 (args.program tid) ↔
      event.thread = tid ∧ Placed args tid event.segment event.act := by
  rw [mem_eventsFrom, ← mem_program_iff packing]
  constructor
  · rintro ⟨own, _, found⟩
    exact ⟨own, found⟩
  · rintro ⟨own, found⟩
    exact ⟨own, Nat.zero_le _, found⟩

/-! ## The threads of one group -/

/-- The chief of the group of a thread. -/
def chief (args : GemmArgs) (tid : Nat) : Nat :=
  args.icWays * args.jcWorkId tid

theorem jcWorkId_eq (tid : Nat) :
    args.jcWorkId tid = tid / args.icWays :=
  rfl

/-- Threads of one group walk the same rounds. -/
theorem packRounds_eq {thread other : Nat}
    (mates : args.team.Mates thread other) :
    args.packRounds other = args.packRounds thread := by
  have same : args.jcWorkId other = args.jcWorkId thread := mates.group
  have range : gemmJcRange (args.thread other) args.n args.blksz.NR =
      gemmJcRange (args.thread thread) args.n args.blksz.NR := by
    change dlpThreadTaskRange ⟨other, args.jcWays, args.jcWorkId other⟩
        args.n args.blksz.NR false =
      dlpThreadTaskRange ⟨thread, args.jcWays, args.jcWorkId thread⟩
        args.n args.blksz.NR false
    rw [same]
    rfl
  unfold GemmArgs.packRounds
  rw [range]

theorem packSegments_length (tid number : Nat) (rounds : List PackRound)
    (before : List GemmOp) :
    (args.packSegments tid number rounds before).length =
      2 * rounds.length + 2 := by
  induction rounds generalizing number before with
  | nil => rfl
  | cons round rest ih =>
      rw [GemmArgs.packSegments, List.length_cons, List.length_cons, ih,
        List.length_cons]
      ring

/-- All threads of a group make the same number of barrier calls. -/
theorem team_balanced (packing : PacksB args) : args.team.Balanced := by
  intro thread other mates
  change (args.program other).length = (args.program thread).length
  rw [program_eq packing, program_eq packing, packSegments_length,
    packSegments_length, packRounds_eq mates]

theorem amOchief_iff (tid : Nat) :
    args.AmOchief tid ↔ tid = chief args tid := by
  change tid % args.icWays = 0 ↔ tid = args.icWays * (tid / args.icWays)
  have split := Nat.div_add_mod tid args.icWays
  omega

theorem chief_eq {thread other : Nat}
    (sameGroup : args.jcWorkId other = args.jcWorkId thread) :
    chief args other = chief args thread := by
  rw [chief, sameGroup, chief]

theorem icWays_pos {tid : Nat} (inTeam : tid < args.team.count) :
    0 < args.icWays := by
  rcases Nat.eq_zero_or_pos args.icWays with none | some
  · change tid < args.icWays * args.jcWays at inTeam
    rw [none, Nat.zero_mul] at inTeam
    exact absurd inTeam (Nat.not_lt_zero tid)
  · exact some

theorem chief_mate {tid : Nat} (inTeam : tid < args.team.count) :
    args.team.Mates tid (chief args tid) := by
  have positive := icWays_pos inTeam
  refine ⟨inTeam, ?_, ?_⟩
  · exact (Nat.mul_div_le tid args.icWays).trans_lt inTeam
  · exact Nat.mul_div_cancel_left _ positive

theorem amOchief_chief {tid : Nat} (inTeam : tid < args.team.count) :
    args.AmOchief (chief args tid) := by
  rw [amOchief_iff]
  exact (chief_eq (chief_mate inTeam).group).symm

/-! ## The parts of a panel -/

theorem packRange_eq {tid : Nat} (positive : 0 < args.icWays) (nc0 : Nat) :
    args.packRange tid nc0 =
      (highEdgeCut args.icWays nc0 args.blksz.NR (tid % args.icWays),
        highEdgeCut args.icWays nc0 args.blksz.NR
          (tid % args.icWays + 1)) :=
  dlpThreadTaskRange_highEdge (args.threadIc tid) nc0 args.blksz.NR
    (Nat.mod_lt tid positive)

/-- A part of a panel starts at a micro panel and ends at one, or with the
panel. -/
structure Part (NR nc0 : Nat) (range : Nat × Nat) : Prop where
  start_dvd : NR ∣ range.1
  ends : range.2 = nc0 ∨ (NR ∣ range.2 ∧ range.2 ≤ nc0)

theorem packRange_part {tid : Nat} (inTeam : tid < args.team.count)
    (nc0 : Nat) :
    Part args.blksz.NR nc0 (args.packRange tid nc0) := by
  have positive := icWays_pos inTeam
  have valid := Nat.mod_lt tid positive
  rw [packRange_eq positive]
  exact ⟨highEdgeCut_dvd nc0 args.blksz.NR valid,
    highEdgeCut_ends nc0 args.blksz.NR valid⟩

theorem Part.stop_le {NR nc0 : Nat} {range : Nat × Nat}
    (part : Part NR nc0 range) : range.2 ≤ nc0 := by
  rcases part.ends with last | inner
  · exact last.le
  · exact inner.2

/-- Different threads of a group have consecutive parts. -/
theorem packRange_order {thread other : Nat}
    (mates : args.team.Mates thread other)
    (before : thread % args.icWays < other % args.icWays) (nc0 : Nat) :
    (args.packRange thread nc0).2 ≤ (args.packRange other nc0).1 := by
  have positive := icWays_pos mates.left
  have valid := Nat.mod_lt other positive
  rw [packRange_eq positive, packRange_eq positive]
  exact (taskCuts args.icWays nc0 args.blksz.NR positive false).cut_le_cut
    before valid.le

/-- Threads of a group are told apart by their row work id. -/
theorem mates_eq_of_mod {thread other : Nat}
    (mates : args.team.Mates thread other)
    (same : thread % args.icWays = other % args.icWays) :
    thread = other := by
  have group : other / args.icWays = thread / args.icWays := mates.group
  rw [← Nat.div_add_mod thread args.icWays,
    ← Nat.div_add_mod other args.icWays, group, same]

/-- Every column of a panel lies in the part of one thread of the group. -/
theorem existsUnique_packer {thread : Nat}
    (inTeam : thread < args.team.count) {nc0 column : Nat}
    (inside : column < nc0) :
    ∃! other, args.team.Mates thread other ∧
      InRange (args.packRange other nc0) column := by
  have positive := icWays_pos inTeam
  have group : args.jcWorkId thread < args.jcWays :=
    Nat.div_lt_of_lt_mul inTeam
  have rows := existsUnique_workId args.blksz.NR (fun work => work)
    positive inside
  have columns : ∃! work, work < args.jcWays ∧
      work = args.jcWorkId thread :=
    ⟨_, ⟨group, rfl⟩, fun other both => both.2⟩
  rcases existsUnique_tid columns rows with
    ⟨other, ⟨bounded, inPart, sameGroup⟩, only⟩
  refine ⟨other, ⟨⟨inTeam, bounded, sameGroup⟩, inPart⟩, ?_⟩
  rintro third ⟨mates, thirdPart⟩
  exact only third ⟨mates.right, thirdPart, mates.group⟩

/-- A part that holds the first column of a micro panel holds all of it. -/
theorem Part.holds_strip {NR nc0 jr : Nat} {range : Nat × Nat}
    (part : Part NR nc0 range) (aligned : NR ∣ jr)
    (inside : InRange range jr) :
    jr + min (nc0 - jr) NR ≤ range.2 := by
  have upper := inside.2
  rcases part.ends with last | ⟨divides, _⟩
  · rw [last] at upper ⊢
    omega
  · have next := add_le_of_dvd_lt aligned divides upper
    omega

theorem packs_of_inRange {tid column : Nat} {round : PackRound}
    (inside : column < round.nc0)
    (inRange : InRange (args.packRange tid round.nc0) column) :
    Packs args tid round := by
  have lower := inRange.1
  have upper := inRange.2
  exact ⟨by omega, by omega⟩

/-! ## The slots of a part -/

/-- The slots of the panel that the chunks of a part cover. -/
def PackSlots (args : GemmArgs) (round : PackRound) (range : Nat × Nat)
    (slot : Nat) : Prop :=
  ∃ chunk, chunk ∈ panelChunks (range.2 - range.1) args.blksz.NR
      dlpGetPackbS8s8s32o32MinNR (dlpMakeMultipleOfN round.kc0 4) ∧
    range.1 * dlpMakeMultipleOfN round.kc0 4 + chunk.offset ≤ slot ∧
    slot < range.1 * dlpMakeMultipleOfN round.kc0 4 + chunk.offset +
      chunk.slot * dlpMakeMultipleOfN round.kc0 4

/-- The chunk walk over whole micro panels stays inside them. -/
theorem chunkLoop_whole {nc0 NR minNR kc0Padded fuel : Nat}
    {chunk visited : DlpReorderChunk} (divides : NR ∣ nc0)
    (aligned : NR ∣ chunk.colStart + chunk.cols)
    (offset : chunk.offset + chunk.slot * kc0Padded =
      (chunk.colStart + chunk.cols) * kc0Padded)
    (member : visited ∈ chunkLoop nc0 NR minNR kc0Padded fuel chunk) :
    visited.offset + visited.slot * kc0Padded ≤ nc0 * kc0Padded := by
  induction fuel generalizing chunk with
  | zero => cases member
  | succ fuel ih =>
      unfold chunkLoop dlpReorderChunkNext at member
      dsimp only at member
      by_cases done : nc0 ≤ chunk.colStart + chunk.cols
      · rw [if_pos done] at member
        cases member
      · rw [if_neg done] at member
        by_cases illegal : NR = 0 ∨ minNR = 0
        · rw [if_pos illegal] at member
          cases member
        · have fits := add_le_of_dvd_lt aligned divides
            (Nat.lt_of_not_le done)
          rw [if_neg illegal, if_pos (by omega), offset] at member
          have next : (chunk.colStart + chunk.cols) * kc0Padded +
              NR * kc0Padded =
                (chunk.colStart + chunk.cols + NR) * kc0Padded :=
            (Nat.add_mul _ _ _).symm
          rcases List.mem_cons.mp member with rfl | later
          · rw [next]
            exact Nat.mul_le_mul_right _ fits
          · exact ih (Nat.dvd_add aligned dvd_rfl) next later

/-- A thread that packs reaches no slot of the threads behind it. -/
theorem packSlots_order {thread other : Nat}
    (mates : args.team.Mates thread other) {round : PackRound} {slot : Nat}
    (packs : Packs args thread round) (otherPacks : Packs args other round)
    (left : PackSlots args round (args.packRange thread round.nc0) slot)
    (right : PackSlots args round (args.packRange other round.nc0) slot) :
    ¬ thread % args.icWays < other % args.icWays := by
  intro before
  have order := packRange_order mates before round.nc0
  have part := packRange_part mates.left round.nc0
  have bounded := (packRange_part mates.right round.nc0).stop_le
  have nonempty := packs.1
  have otherNonempty := otherPacks.1
  rcases left with ⟨chunk, member, -, upper⟩
  rcases right with ⟨otherChunk, -, lower, -⟩
  generalize dlpMakeMultipleOfN round.kc0 4 = rows at *
  generalize args.packRange thread round.nc0 = range at *
  have stopDvd : args.blksz.NR ∣ range.2 := by
    rcases part.ends with last | inner
    · omega
    · exact inner.1
  have inside : chunk.offset + chunk.slot * rows ≤
      (range.2 - range.1) * rows :=
    chunkLoop_whole (Nat.dvd_sub stopDvd part.start_dvd) (dvd_zero _)
      (by simp [dlpReorderChunkFirst]) member
  have stop : range.1 * rows + (range.2 - range.1) * rows ≤
      (args.packRange other round.nc0).1 * rows := by
    rw [← Nat.add_mul]
    apply Nat.mul_le_mul_right
    omega
  omega

/-- At most one thread of a group packs a slot. -/
theorem packSlots_unique {thread other : Nat}
    (mates : args.team.Mates thread other) {round : PackRound} {slot : Nat}
    (packs : Packs args thread round) (otherPacks : Packs args other round)
    (left : PackSlots args round (args.packRange thread round.nc0) slot)
    (right : PackSlots args round (args.packRange other round.nc0) slot) :
    thread = other := by
  have forward := packSlots_order mates packs otherPacks left right
  have backward := packSlots_order
    ⟨mates.right, mates.left, mates.group.symm⟩ otherPacks packs right left
  exact mates_eq_of_mod mates (by omega)

/-! ## The pointers -/

/-- The owner of a block has published it. -/
def Published (log : List (Event GemmOp)) (block : Nat) : Prop :=
  ∃ segment, ⟨block, segment, .publish⟩ ∈ log

/-- What the pointers and the live blocks of a run can be. -/
structure Pointers (args : GemmArgs) (log : List (Event GemmOp))
    (memory : GemmMemory) : Prop where
  sent : ∀ group block, memory.sentObject group = some block →
    block = args.icWays * group ∧ Published log block
  own : ∀ tid block, memory.packB tid = some block →
    block = chief args tid ∧ Published log block
  published : ∀ group, Published log (args.icWays * group) →
    memory.sentObject group = some (args.icWays * group)
  received : ∀ tid segment, ⟨tid, segment, .receive⟩ ∈ log →
    memory.packB tid = some (chief args tid)
  live : ∀ block, Published log block →
    (∀ segment, ⟨block, segment, .free⟩ ∉ log) → memory.live block = true

theorem pointers_start (heap : Nat → ReorderBuffer)
    (c : Nat → BitVec 32) :
    Pointers args [] (GemmMemory.start heap c) where
  sent := by
    intro group block found
    cases found
  own := by
    intro tid block found
    cases found
  published := by
    rintro group ⟨segment, member⟩
    cases member
  received := by
    intro tid segment member
    cases member
  live := by
    rintro block ⟨segment, member⟩
    cases member

theorem Published.append {log : List (Event GemmOp)} {block : Nat}
    (published : Published log block) (event : Event GemmOp) :
    Published (log ++ [event]) block := by
  rcases published with ⟨segment, member⟩
  exact ⟨segment, List.mem_append_left _ member⟩

theorem published_append_iff {log : List (Event GemmOp)}
    {event : Event GemmOp} {block : Nat} :
    Published (log ++ [event]) block ↔
      Published log block ∨
        (event.thread = block ∧ event.act = .publish) := by
  constructor
  · rintro ⟨segment, member⟩
    rcases List.mem_append.mp member with old | new
    · exact Or.inl ⟨segment, old⟩
    · rw [List.mem_singleton] at new
      rw [← new]
      exact Or.inr ⟨rfl, rfl⟩
  · rintro (old | ⟨rfl, act⟩)
    · exact old.append event
    · exact ⟨event.segment, List.mem_append_right _
        (by rw [← act]; exact List.mem_singleton_self _)⟩

/-- Operations that leave the pointers alone. -/
def Quiet (op : GemmOp) : Prop :=
  op ≠ .publish ∧ op ≠ .receive ∧ op ≠ .free

theorem onBuffer_pointers (memory : GemmMemory) (tid : Nat)
    (change : ReorderBuffer → ReorderBuffer) :
    (memory.onBuffer tid change).sentObject = memory.sentObject ∧
      (memory.onBuffer tid change).packB = memory.packB ∧
      (memory.onBuffer tid change).live = memory.live := by
  unfold GemmMemory.onBuffer
  split
  · exact ⟨rfl, rfl, rfl⟩
  · exact ⟨rfl, rfl, rfl⟩

theorem exec_quiet {op : GemmOp} (quiet : Quiet op) (tid : Nat)
    (memory : GemmMemory) :
    (args.exec tid memory op).sentObject = memory.sentObject ∧
      (args.exec tid memory op).packB = memory.packB ∧
      (args.exec tid memory op).live = memory.live := by
  cases op with
  | publish => exact absurd rfl quiet.1
  | receive => exact absurd rfl quiet.2.1
  | free => exact absurd rfl quiet.2.2
  | clear number columnSum start stop =>
      exact onBuffer_pointers memory tid _
  | pack number block start stop =>
      unfold GemmArgs.exec
      dsimp only
      split
      · exact onBuffer_pointers memory tid _
      · exact ⟨rfl, rfl, rfl⟩
  | kernel number call =>
      unfold GemmArgs.exec
      dsimp only
      split
      · exact ⟨rfl, rfl, rfl⟩
      · exact ⟨rfl, rfl, rfl⟩

section Pointers

variable {log : List (Event GemmOp)} {memory : GemmMemory}
    {event : Event GemmOp}

theorem Pointers.quiet (pointers : Pointers args log memory)
    (quiet : Quiet event.act) :
    Pointers args (log ++ [event])
      (args.exec event.thread memory event.act) := by
  rcases exec_quiet quiet event.thread memory with ⟨sent, own, live⟩
  have still (block : Nat) :
      Published (log ++ [event]) block ↔ Published log block := by
    rw [published_append_iff]
    exact or_iff_left fun new => quiet.1 new.2
  refine ⟨?_, ?_, ?_, ?_, ?_⟩
  · intro group block found
    rw [sent] at found
    rw [still]
    exact pointers.sent group block found
  · intro tid block found
    rw [own] at found
    rw [still]
    exact pointers.own tid block found
  · intro group published
    rw [still] at published
    rw [sent]
    exact pointers.published group published
  · intro tid segment member
    rw [own]
    rcases List.mem_append.mp member with old | new
    · exact pointers.received tid segment old
    · rw [List.mem_singleton] at new
      rw [← new] at quiet
      exact absurd rfl quiet.2.1
  · intro block published unfreed
    rw [still] at published
    rw [live]
    exact pointers.live block published fun segment member =>
      unfreed segment (List.mem_append_left _ member)

theorem Pointers.receive (pointers : Pointers args log memory)
    (act : event.act = .receive)
    (published : Published log (chief args event.thread)) :
    Pointers args (log ++ [event])
      (args.exec event.thread memory event.act) := by
  have sent := pointers.published (args.jcWorkId event.thread) published
  have still (block : Nat) :
      Published (log ++ [event]) block ↔ Published log block := by
    rw [published_append_iff, act]
    exact or_iff_left fun new => by cases new.2
  rw [act]
  refine ⟨?_, ?_, ?_, ?_, ?_⟩
  · intro group block found
    rw [still]
    exact pointers.sent group block found
  · intro tid block found
    rw [still]
    by_cases self : tid = event.thread
    · subst self
      simp only [GemmArgs.exec, Function.update_self, sent,
        Option.some.injEq] at found
      rw [← found]
      exact ⟨rfl, published⟩
    · simp only [GemmArgs.exec, Function.update_of_ne self] at found
      exact pointers.own tid block found
  · intro group again
    rw [still] at again
    exact pointers.published group again
  · intro tid segment member
    by_cases self : tid = event.thread
    · subst self
      simp only [GemmArgs.exec, Function.update_self, sent]
      rfl
    · simp only [GemmArgs.exec, Function.update_of_ne self]
      rcases List.mem_append.mp member with old | new
      · exact pointers.received tid segment old
      · rw [List.mem_singleton] at new
        rw [← new] at self
        exact absurd rfl self
  · intro block again unfreed
    rw [still] at again
    exact pointers.live block again fun segment member =>
      unfreed segment (List.mem_append_left _ member)

theorem Pointers.publish (pointers : Pointers args log memory)
    (positive : 0 < args.icWays) (act : event.act = .publish)
    (isChief : args.AmOchief event.thread) :
    Pointers args (log ++ [event])
      (args.exec event.thread memory event.act) := by
  have self := (amOchief_iff event.thread).mp isChief
  have block : (memory.packB event.thread).getD event.thread =
      event.thread := by
    cases found : memory.packB event.thread with
    | none => rfl
    | some other =>
        exact (pointers.own event.thread other found).1.trans self.symm
  have now : Published (log ++ [event]) event.thread :=
    published_append_iff.mpr (Or.inr ⟨rfl, act⟩)
  rw [act]
  simp only [GemmArgs.exec, block]
  refine ⟨?_, ?_, ?_, ?_, ?_⟩
  · intro group other found
    by_cases here : group = args.jcWorkId event.thread
    · subst here
      simp only [Function.update_self, Option.some.injEq] at found
      subst found
      exact ⟨self, now⟩
    · simp only [Function.update_of_ne here] at found
      have before := pointers.sent group other found
      exact ⟨before.1, before.2.append event⟩
  · intro tid other found
    by_cases here : tid = event.thread
    · subst here
      simp only [Function.update_self, Option.some.injEq] at found
      subst found
      exact ⟨self, now⟩
    · simp only [Function.update_of_ne here] at found
      have before := pointers.own tid other found
      exact ⟨before.1, before.2.append event⟩
  · intro group published
    by_cases here : group = args.jcWorkId event.thread
    · subst here
      simp only [Function.update_self, Option.some.injEq]
      exact self
    · simp only [Function.update_of_ne here]
      rcases published_append_iff.mp published with old | new
      · exact pointers.published group old
      · apply absurd _ here
        rw [jcWorkId_eq, new.1, Nat.mul_div_cancel_left _ positive]
  · intro tid segment member
    by_cases here : tid = event.thread
    · subst here
      simp only [Function.update_self, Option.some.injEq]
      exact self
    · simp only [Function.update_of_ne here]
      rcases List.mem_append.mp member with old | new
      · exact pointers.received tid segment old
      · rw [List.mem_singleton] at new
        rw [← new] at here
        exact absurd rfl here
  · intro other published unfreed
    have before (old : Published log other) :
        memory.live other = true :=
      pointers.live other old fun segment member =>
        unfreed segment (List.mem_append_left _ member)
    cases found : memory.packB event.thread with
    | none =>
        by_cases here : other = event.thread
        · subst here
          simp
        · simp only [Option.isNone_none, if_true,
            Function.update_of_ne here]
          rcases published_append_iff.mp published with old | new
          · exact before old
          · exact absurd new.1.symm here
    | some owned =>
        simp only [Option.isNone_some, Bool.false_eq_true, if_false]
        rcases published_append_iff.mp published with old | new
        · exact before old
        · have held := pointers.own event.thread owned found
          rw [held.1, ← self, new.1] at held
          exact before held.2

theorem Pointers.free (pointers : Pointers args log memory)
    (act : event.act = .free) (isChief : args.AmOchief event.thread) :
    Pointers args (log ++ [event])
      (args.exec event.thread memory event.act) := by
  have self := (amOchief_iff event.thread).mp isChief
  have still (block : Nat) :
      Published (log ++ [event]) block ↔ Published log block := by
    rw [published_append_iff, act]
    exact or_iff_left fun new => by cases new.2
  have shape : args.exec event.thread memory event.act = memory ∨
      args.exec event.thread memory event.act =
        { memory with
          live := Function.update memory.live event.thread false } := by
    rw [act]
    cases found : memory.packB event.thread with
    | none => exact Or.inl (by simp [GemmArgs.exec, found])
    | some block =>
        have same := (pointers.own event.thread block found).1
        rw [← self] at same
        subst same
        exact Or.inr (by simp [GemmArgs.exec, found])
  have others (block : Nat)
      (unfreed : ∀ segment, ⟨block, segment, .free⟩ ∉ log ++ [event]) :
      (args.exec event.thread memory event.act).live block =
        memory.live block := by
    rcases shape with same | freed
    · rw [same]
    · rw [freed]
      apply Function.update_of_ne
      rintro rfl
      apply unfreed event.segment
      apply List.mem_append_right
      rw [← act]
      exact List.mem_singleton_self _
  have pointersSame :
      (args.exec event.thread memory event.act).sentObject =
          memory.sentObject ∧
        (args.exec event.thread memory event.act).packB =
          memory.packB := by
    rcases shape with same | freed
    · rw [same]
      exact ⟨rfl, rfl⟩
    · rw [freed]
      exact ⟨rfl, rfl⟩
  refine ⟨?_, ?_, ?_, ?_, ?_⟩
  · intro group block found
    rw [pointersSame.1] at found
    rw [still]
    exact pointers.sent group block found
  · intro tid block found
    rw [pointersSame.2] at found
    rw [still]
    exact pointers.own tid block found
  · intro group published
    rw [still] at published
    rw [pointersSame.1]
    exact pointers.published group published
  · intro tid segment member
    rw [pointersSame.2]
    rcases List.mem_append.mp member with old | new
    · exact pointers.received tid segment old
    · rw [List.mem_singleton] at new
      rw [← new] at act
      cases act
  · intro block published unfreed
    rw [still] at published
    rw [others block unfreed]
    exact pointers.live block published fun segment member =>
      unfreed segment (List.mem_append_left _ member)

end Pointers

theorem memoryAfter_append (log : List (Event GemmOp))
    (event : Event GemmOp) (memory : GemmMemory) :
    args.memoryAfter (log ++ [event]) memory =
      args.exec event.thread (args.memoryAfter log memory) event.act := by
  unfold GemmArgs.memoryAfter
  rw [List.foldl_append]
  rfl

/-! ## Reachable states -/

section Reachable

variable {state : State GemmOp} {thread other : Nat} {op : GemmOp}

/-- A pending operation has its place in the program. -/
theorem placed_of_pends (packing : PacksB args)
    (inv : args.team.Inv state) (inTeam : thread < args.team.count)
    (pends : (state.cursor thread).Pends op) :
    Placed args thread (state.cursor thread).passed op :=
  ((mem_events_iff packing).mp (inv.pends_mem inTeam pends)).2

/-- A pending operation is the first that the thread has left. -/
theorem pending_of_pends (pends : (state.cursor thread).Pends op) :
    ⟨thread, (state.cursor thread).passed, op⟩ ∈
      (state.cursor thread).pending thread := by
  rcases pends with ⟨rest, todo⟩
  rw [Cursor.pending, todo]
  exact List.mem_append_left _ List.mem_cons_self

/-- What a thread has left has its place in the program. -/
theorem placed_of_pending (packing : PacksB args)
    (inv : args.team.Inv state) (inTeam : thread < args.team.count)
    {event : Event GemmOp}
    (left : event ∈ (state.cursor thread).pending thread) :
    Placed args thread event.segment event.act := by
  have inProgram : event ∈ eventsFrom thread 0 (args.team.program thread) := by
    rw [← inv.ledger thread inTeam]
    exact List.mem_append_right _ left
  exact ((mem_events_iff packing).mp inProgram).2

theorem placed_of_logged (packing : PacksB args)
    (inv : args.team.Inv state) {event : Event GemmOp}
    (member : event ∈ state.log) :
    Placed args event.thread event.segment event.act :=
  ((mem_events_iff packing).mp (inv.log_mem member)).2

/-- An operation of an earlier segment is in the log. -/
theorem logged_of_placed (packing : PacksB args)
    (inv : args.team.Inv state) (mates : args.team.Mates thread other)
    {segment : Nat} (placed : Placed args other segment op)
    (before : segment < (state.cursor thread).passed) :
    ⟨other, segment, op⟩ ∈ state.log :=
  inv.ran_before mates ((mem_events_iff packing).mpr ⟨rfl, placed⟩) before

/-- Behind the first barrier of a round the chief has published its block. -/
theorem published_of_passed (packing : PacksB args)
    (inv : args.team.Inv state) (inTeam : thread < args.team.count)
    {number : Nat} (round : number < (args.packRounds thread).length)
    (behind : 2 * number < (state.cursor thread).passed) :
    Published state.log (chief args thread) := by
  have mates := chief_mate inTeam
  refine ⟨2 * number, logged_of_placed packing inv mates
    (.publish ?_ (amOchief_chief inTeam)) behind⟩
  rw [packRounds_eq mates]
  exact round

theorem pointers_step (packing : PacksB args) (inv : args.team.Inv state)
    {memory : GemmMemory} (pointers : Pointers args state.log memory)
    (inTeam : thread < args.team.count)
    (pends : (state.cursor thread).Pends op) :
    Pointers args
      (state.log ++ [⟨thread, (state.cursor thread).passed, op⟩])
      (args.exec thread memory op) := by
  have placed := placed_of_pends packing inv inTeam pends
  generalize segment : (state.cursor thread).passed = index at placed
  let event : Event GemmOp := ⟨thread, index, op⟩
  change Pointers args (state.log ++ [event])
    (args.exec event.thread memory event.act)
  cases placed with
  | publish inside isChief =>
      exact pointers.publish (icWays_pos inTeam) rfl isChief
  | receive inside =>
      apply pointers.receive rfl
      exact published_of_passed packing inv inTeam inside
        (by rw [segment]; exact Nat.lt_succ_self _)
  | clear found packs first =>
      exact pointers.quiet ⟨by simp [event], by simp [event],
        by simp [event]⟩
  | pack found packs =>
      exact pointers.quiet ⟨by simp [event], by simp [event],
        by simp [event]⟩
  | kernel found calls =>
      exact pointers.quiet ⟨by simp [event], by simp [event],
        by simp [event]⟩
  | free isChief => exact pointers.free rfl isChief

theorem pointers_of_reachable (packing : PacksB args)
    (reachable : args.team.machine.Reachable state)
    (heap : Nat → ReorderBuffer) (c : Nat → BitVec 32) :
    Pointers args state.log
      (args.memoryAfter state.log (GemmMemory.start heap c)) := by
  have both : args.team.Inv state ∧ Pointers args state.log
      (args.memoryAfter state.log (GemmMemory.start heap c)) := by
    apply reachable.invariant fun state => args.team.Inv state ∧
      Pointers args state.log
        (args.memoryAfter state.log (GemmMemory.start heap c))
    · rintro state rfl
      exact ⟨args.team.inv_initial, pointers_start heap c⟩
    · rintro state next ⟨inv, pointers⟩ step
      refine ⟨inv.step step, ?_⟩
      cases step with
      | run inTeam todo =>
          change Pointers args (state.log ++ [_])
            (args.memoryAfter (state.log ++ [_]) _)
          rw [memoryAfter_append]
          exact pointers_step packing inv pointers inTeam ⟨_, todo⟩
      | pass _ _ _ _ => exact pointers
  exact both.2

/-- The thread uses the shared buffer. -/
def UsesBuffer : GemmOp → Prop
  | .publish | .receive | .free => False
  | .clear _ _ _ _ | .pack _ _ _ _ | .kernel _ _ => True

/-- The operation writes the panel or its column sums, in a round. -/
def WritesRound (number : Nat) : GemmOp → Prop
  | .publish | .receive | .free | .kernel _ _ => False
  | .clear round _ _ _ | .pack round _ _ _ => round = number

/-- The round of an operation that uses the buffer, and its segment. -/
theorem Placed.uses {segment : Nat} (placed : Placed args thread segment op)
    (uses : UsesBuffer op) :
    ∃ number, number < (args.packRounds thread).length ∧
      (segment = 2 * number + 1 ∨ segment = 2 * number + 2) := by
  cases placed with
  | publish => cases uses
  | receive => cases uses
  | free => cases uses
  | clear found _ _ =>
      exact ⟨_, (List.getElem?_eq_some_iff.mp found).1, Or.inl rfl⟩
  | pack found _ =>
      exact ⟨_, (List.getElem?_eq_some_iff.mp found).1, Or.inl rfl⟩
  | kernel found _ =>
      exact ⟨_, (List.getElem?_eq_some_iff.mp found).1, Or.inr rfl⟩

theorem Placed.writes {segment number : Nat}
    (placed : Placed args thread segment op)
    (writes : WritesRound number op) : segment = 2 * number + 1 := by
  cases placed with
  | publish => cases writes
  | receive => cases writes
  | free => cases writes
  | kernel => cases writes
  | clear _ _ _ => rw [show _ = number from writes]
  | pack _ _ => rw [show _ = number from writes]

theorem Placed.kernel_segment {segment number : Nat} {call : KernelCall}
    (placed : Placed args thread segment (.kernel number call)) :
    segment = 2 * number + 2 ∧
      ∃ round, (args.packRounds thread)[number]? = some round ∧
        Calls args thread round call := by
  cases placed with
  | kernel found calls => exact ⟨rfl, _, found, calls⟩

/-- The two barriers of a round enclose the packing. -/
theorem packSegments_pack (tid number : Nat) (rounds : List PackRound)
    (before : List GemmOp) {r : Nat} {round : PackRound}
    (found : rounds[r]? = some round) :
    (args.packSegments tid number rounds before)[2 * r + 1]? =
      some (args.packSegment tid (number + r) round) := by
  induction rounds generalizing number before r with
  | nil => cases found
  | cons first rest ih =>
      rw [GemmArgs.packSegments]
      cases r with
      | zero =>
          rw [List.getElem?_cons_zero, Option.some.injEq] at found
          rw [found]
          rfl
      | succ r =>
          rw [List.getElem?_cons_succ] at found
          rw [show 2 * (r + 1) + 1 = 2 * r + 1 + 1 + 1 by ring,
            List.getElem?_cons_succ, List.getElem?_cons_succ, ih _ _ found]
          rw [show number + 1 + r = number + (r + 1) by ring]

/-- A thread that uses the buffer has read the published pointer. -/
theorem received_of_uses (packing : PacksB args)
    (inv : args.team.Inv state) (inTeam : thread < args.team.count)
    (pends : (state.cursor thread).Pends op) (uses : UsesBuffer op) :
    ∃ segment, ⟨thread, segment, .receive⟩ ∈ state.log := by
  have placed := placed_of_pends packing inv inTeam pends
  rcases placed.uses uses with ⟨number, inside, packs | calls⟩
  · have segment := @packSegments_pack args thread 0
      (args.packRounds thread) [] _ _ (List.getElem?_eq_getElem inside)
    rw [← program_eq packing, ← packs] at segment
    refine ⟨_, inv.first_ran inTeam pends segment ?_⟩
    rintro rfl
    cases uses
  · exact ⟨2 * number + 1, logged_of_placed packing inv
      ⟨inTeam, inTeam, rfl⟩ (.receive inside) (by omega)⟩

/-- No use of the buffer is left once a thread stands behind the last
barrier. -/
theorem no_uses_left (packing : PacksB args) (inv : args.team.Inv state)
    (mates : args.team.Mates thread other)
    (behind : 2 * (args.packRounds thread).length <
      (state.cursor thread).passed) {event : Event GemmOp}
    (member : event ∈ (state.cursor other).pending other) :
    ¬ UsesBuffer event.act := by
  intro uses
  have after := inv.le_pending mates member
  rcases (placed_of_pending packing inv mates.right member).uses uses with
    ⟨number, inside, segment⟩
  rw [packRounds_eq mates] at inside
  omega

theorem Placed.pack_range {segment number start stop : Nat}
    {round : PackRound}
    (placed : Placed args thread segment (.pack number round start stop)) :
    (start, stop) = args.packRange thread round.nc0 ∧
      Packs args thread round := by
  cases placed with
  | pack _ packs => exact ⟨rfl, packs⟩

theorem Placed.free_segment {segment : Nat}
    (placed : Placed args thread segment .free) :
    segment = 2 * (args.packRounds thread).length + 1 := by
  cases placed with
  | free => rfl

/-- A thread packs its part of a round before any mate multiplies. -/
theorem packed_of_inRange (packing : PacksB args)
    (inv : args.team.Inv state) (mates : args.team.Mates thread other)
    {number jr : Nat} {round : PackRound}
    (found : (args.packRounds thread)[number]? = some round)
    (behind : 2 * number + 1 < (state.cursor thread).passed)
    (inside : jr < round.nc0)
    (inRange : InRange (args.packRange other round.nc0) jr) :
    ⟨other, 2 * number + 1, .pack number round
      (args.packRange other round.nc0).1
      (args.packRange other round.nc0).2⟩ ∈ state.log := by
  rw [← packRounds_eq mates] at found
  exact logged_of_placed packing inv mates
    (.pack found (packs_of_inRange inside inRange)) behind

end Reachable

/-! ## The protocol -/

/-- The operations of a thread. -/
def Performs (args : GemmArgs) (tid : Nat) (op : GemmOp) : Prop :=
  op ∈ (args.program tid).flatten

theorem performs_iff (packing : PacksB args) {tid : Nat} {op : GemmOp} :
    Performs args tid op ↔ ∃ index, Placed args tid index op := by
  simp only [← mem_program_iff packing, Performs, List.mem_flatten]
  constructor
  · rintro ⟨segment, inProgram, member⟩
    rcases List.getElem?_of_mem inProgram with ⟨index, found⟩
    exact ⟨index, segment, found, member⟩
  · rintro ⟨index, segment, found, member⟩
    exact ⟨segment, List.mem_of_getElem? found, member⟩

/-- What the threads of a group can rely on while they share a buffer. -/
structure SharedBufferSafe (args : GemmArgs) (state : State GemmOp)
    (memory : GemmMemory) : Prop where
  sameBarriers : ∀ thread other, args.team.Mates thread other →
    (args.program other).length = (args.program thread).length
  slotOnce : ∀ thread other, args.team.Mates thread other →
    ∀ number round start stop otherStart otherStop slot,
      Performs args thread (.pack number round start stop) →
      Performs args other (.pack number round otherStart otherStop) →
      PackSlots args round (start, stop) slot →
      PackSlots args round (otherStart, otherStop) slot →
        thread = other
  packedBeforeRead : ∀ thread number call, thread < args.team.count →
    (state.cursor thread).Pends (.kernel number call) →
      ∃ round, (args.packRounds thread)[number]? = some round ∧
        (args.blksz.NR ∣ call.jr ∧ call.jr < round.nc0 ∧
          call.nr0 = min (round.nc0 - call.jr) args.blksz.NR) ∧
        ∀ jr, args.blksz.NR ∣ jr → jr < round.nc0 →
          ∃! packer, args.team.Mates thread packer ∧
            ∃ segment start stop,
              ⟨packer, segment, .pack number round start stop⟩ ∈ state.log ∧
                InRange (start, stop) jr ∧
                jr + min (round.nc0 - jr) args.blksz.NR ≤ stop
  readsApart : ∀ thread other, args.team.Mates thread other →
    ∀ number call, (state.cursor thread).Pends (.kernel number call) →
      ∀ op later, (state.cursor other).Pends op → ¬ WritesRound later op
  noOverwrite : ∀ thread other, args.team.Mates thread other →
    ∀ segment number call,
      ⟨thread, segment, .kernel number call⟩ ∈
          (state.cursor thread).pending thread →
      ∀ op later, WritesRound later op →
        ((state.cursor other).Pends op ∨
          ∃ otherSegment, ⟨other, otherSegment, op⟩ ∈ state.log) →
        later ≤ number
  seesChief : ∀ thread op, thread < args.team.count →
    (state.cursor thread).Pends op → UsesBuffer op →
      memory.packB thread = some (chief args thread) ∧
        memory.live (chief args thread) = true
  freedLast : ∀ thread other, args.team.Mates thread other →
    ((state.cursor thread).Pends .free ∨
      ∃ segment, ⟨thread, segment, .free⟩ ∈ state.log) →
      ∀ event, event ∈ (state.cursor other).pending other →
        ¬ UsesBuffer event.act

section Safe

variable {state : State GemmOp}

theorem slot_once (packing : PacksB args) {thread other : Nat}
    (mates : args.team.Mates thread other) {number : Nat}
    {round : PackRound} {start stop otherStart otherStop slot : Nat}
    (performs : Performs args thread (.pack number round start stop))
    (otherPerforms :
      Performs args other (.pack number round otherStart otherStop))
    (left : PackSlots args round (start, stop) slot)
    (right : PackSlots args round (otherStart, otherStop) slot) :
    thread = other := by
  rcases (performs_iff packing).mp performs with ⟨index, placed⟩
  rcases (performs_iff packing).mp otherPerforms with
    ⟨otherIndex, otherPlaced⟩
  rw [placed.pack_range.1] at left
  rw [otherPlaced.pack_range.1] at right
  exact packSlots_unique mates placed.pack_range.2
    otherPlaced.pack_range.2 left right

theorem packed_before_read (packing : PacksB args)
    (inv : args.team.Inv state) {thread number : Nat} {call : KernelCall}
    (inTeam : thread < args.team.count)
    (pends : (state.cursor thread).Pends (.kernel number call)) :
    ∃ round, (args.packRounds thread)[number]? = some round ∧
      (args.blksz.NR ∣ call.jr ∧ call.jr < round.nc0 ∧
        call.nr0 = min (round.nc0 - call.jr) args.blksz.NR) ∧
      ∀ jr, args.blksz.NR ∣ jr → jr < round.nc0 →
        ∃! packer, args.team.Mates thread packer ∧
          ∃ segment start stop,
            ⟨packer, segment, .pack number round start stop⟩ ∈ state.log ∧
              InRange (start, stop) jr ∧
              jr + min (round.nc0 - jr) args.blksz.NR ≤ stop := by
  rcases (placed_of_pends packing inv inTeam pends).kernel_segment with
    ⟨segment, round, found, ic, _, inJr⟩
  rcases jrLoop_mem (dvd_zero args.blksz.NR) inJr with
    ⟨aligned, inside, shape⟩
  refine ⟨round, found, ⟨aligned, inside, by rw [shape]⟩, ?_⟩
  intro jr jrAligned jrInside
  rcases existsUnique_packer inTeam jrInside with
    ⟨packer, ⟨mates, inRange⟩, only⟩
  have part := packRange_part mates.right round.nc0
  refine ⟨packer, ⟨mates, 2 * number + 1, _, _,
    packed_of_inRange packing inv mates found (by omega) jrInside inRange,
    inRange, part.holds_strip jrAligned inRange⟩, ?_⟩
  rintro other ⟨otherMates, index, start, stop, logged, inPart, -⟩
  have placed := (placed_of_logged packing inv logged).pack_range
  rw [placed.1] at inPart
  exact only other ⟨otherMates, inPart⟩

/-- A thread that uses the buffer sees the block of its chief. -/
theorem sees_chief (packing : PacksB args)
    (reachable : args.team.machine.Reachable state)
    (heap : Nat → ReorderBuffer) (c : Nat → BitVec 32) {thread : Nat}
    {op : GemmOp} (inTeam : thread < args.team.count)
    (pends : (state.cursor thread).Pends op) (uses : UsesBuffer op) :
    (args.memoryAfter state.log (GemmMemory.start heap c)).packB thread =
      some (chief args thread) := by
  rcases received_of_uses packing (Team.inv_of_reachable reachable) inTeam
    pends uses with ⟨segment, received⟩
  exact (pointers_of_reachable packing reachable heap c).received thread
    segment received

end Safe

/-- Two threads pack seventeen columns in two parts. -/
def narrowArgs : GemmArgs where
  m := 2
  n := 17
  k := 5
  a := fun address => UInt8.ofNat address
  rsA := 5
  csA := 1
  b := .pack (fun address => UInt8.ofNat address) 17 1
  rsC := 17
  alpha := 1
  beta := 0
  blksz := ⟨1, 32, 4, 1, 16⟩
  icWays := 2
  jcWays := 1

/-- Thread 1 reaches its first kernel call while thread 0 is at its own. -/
def narrowSchedule : List Nat :=
  [0, 0, 1, 0, 1, 0, 1, 0, 1, 1, 0]

end AoclDlp.Gemm.PackProtocol
