import AoclDlp.Gemm.PackProtocol

/-!
# The rounds of the shared pack buffer

Every round is one `jc` step and one `pc` step of the loops.  The column sums
of a `jc` step lie behind its first panel, which no later panel of the step
outgrows.
-/

namespace AoclDlp.Gemm.Rounds

open AoclDlp.Foundations.Span
open AoclDlp.Gemm.Rowvar
open AoclDlp.Layout.Panel
open AoclDlp.Layout.S8s8s32
open AoclDlp.Threading.TaskRange
open AoclDlp.Threading.WorkPartition

variable {args : GemmArgs}

/-- The round of a `jc` step and a `pc` step; the sums lie behind the first
panel of the `jc` step. -/
def roundAt (args : GemmArgs) (step row : Piece) : PackRound where
  jc := step.start
  nc0 := step.width
  pc := row.start
  kc0 := row.width
  columnSum := dlpMakeMultipleOfN step.width 16 *
    dlpMakeMultipleOfN (min args.k args.blksz.KC) 4

theorem packRows_later (jc nc0 columnSum : Nat) {rows : List Piece}
    (later : ∀ row, row ∈ rows → row.start ≠ 0) :
    GemmArgs.packRows jc nc0 columnSum rows =
      rows.map fun row => ⟨jc, nc0, row.start, row.width, columnSum⟩ := by
  induction rows with
  | nil => rfl
  | cons row rest ih =>
      rw [GemmArgs.packRows, if_neg (later row List.mem_cons_self),
        List.map_cons, ih fun other member =>
          later other (List.mem_cons_of_mem _ member)]

theorem packRows_eq (positive : 0 < args.blksz.KC) (step : Piece) :
    GemmArgs.packRows step.start step.width 0
        (pcLoop args.k args.blksz.KC args.k 0) =
      (pcLoop args.k args.blksz.KC args.k 0).map (roundAt args step) := by
  rcases Nat.eq_zero_or_pos args.k with none | depth
  · rw [none]
    rfl
  · rcases pcLoop_first args.blksz.KC depth with ⟨fuel, _, first⟩
    rw [first, GemmArgs.packRows, if_pos rfl, packRows_later, List.map_cons]
    · rfl
    · intro row member
      have behind := (pcLoop_bounds member).1
      omega

/-- The rounds of a thread, by their loops. -/
theorem packRounds_eq_map (positive : 0 < args.blksz.KC) (tid : Nat) :
    args.packRounds tid =
      (pcLoop (gemmJcRange (args.thread tid) args.n args.blksz.NR).2
        args.blksz.NC
        (gemmJcRange (args.thread tid) args.n args.blksz.NR).2
        (gemmJcRange (args.thread tid) args.n args.blksz.NR).1).flatMap
        fun step => (pcLoop args.k args.blksz.KC args.k 0).map
          (roundAt args step) := by
  unfold GemmArgs.packRounds
  apply List.flatMap_congr
  intro step _
  exact packRows_eq positive step

/-- What the loops guarantee about a round. -/
structure RoundShape (args : GemmArgs) (round : PackRound) : Prop where
  nonempty : 0 < round.nc0
  fits : round.jc + round.nc0 ≤ args.n
  nc0_le : round.nc0 ≤ args.blksz.NC
  row_lt : round.pc < args.k
  kc0_eq : round.kc0 = min (args.k - round.pc) args.blksz.KC
  columnSum : round.columnSum = dlpMakeMultipleOfN round.nc0 16 *
    dlpMakeMultipleOfN (min args.k args.blksz.KC) 4

theorem roundShape (ncPositive : 0 < args.blksz.NC)
    (kcPositive : 0 < args.blksz.KC) {tid : Nat} {round : PackRound}
    (member : round ∈ args.packRounds tid) : RoundShape args round := by
  rw [packRounds_eq_map kcPositive] at member
  rcases List.mem_flatMap.mp member with ⟨step, inSteps, inRows⟩
  rcases List.mem_map.mp inRows with ⟨row, rowMember, rfl⟩
  have columns := pcLoop_bounds inSteps
  have rows := pcLoop_bounds rowMember
  have range := (dlpThreadTaskRange_bounds (dlpGemmGenDlpTaskIds
    (some (args.thread tid))).1 args.n args.blksz.NR).2
  refine ⟨?_, ?_, ?_, rows.2.1, rows.2.2, rfl⟩
  · change 0 < step.width
    omega
  · change (gemmJcRange (args.thread tid) args.n args.blksz.NR).2 ≤ args.n
      at range
    change step.start + step.width ≤ args.n
    omega
  · change step.width ≤ args.blksz.NC
    omega

theorem RoundShape.kc0_pos {round : PackRound}
    (shape : RoundShape args round) (positive : 0 < args.blksz.KC) :
    0 < round.kc0 := by
  have inside := shape.row_lt
  rw [shape.kc0_eq]
  omega

/-! ## Consecutive rounds -/

/-- A round goes on where an earlier one stops. -/
structure Continues (earlier round : PackRound) : Prop where
  jc : earlier.jc = round.jc
  nc0 : earlier.nc0 = round.nc0
  columnSum : earlier.columnSum = round.columnSum
  pc : earlier.pc + earlier.kc0 = round.pc

/-- A round that does not start at the first row goes on where the one before
it stops. -/
def Linked (rounds : List PackRound) : Prop :=
  ∀ number round, rounds[number]? = some round → round.pc ≠ 0 →
    ∃ before earlier, number = before + 1 ∧
      rounds[before]? = some earlier ∧ Continues earlier round

theorem Linked.append {left right : List PackRound} (leftLinked : Linked left)
    (rightLinked : Linked right) : Linked (left ++ right) := by
  intro number round found later
  rcases Nat.lt_or_ge number left.length with inLeft | inRight
  · rw [List.getElem?_append_left inLeft] at found
    rcases leftLinked number round found later with
      ⟨before, earlier, rfl, inside, continues⟩
    refine ⟨before, earlier, rfl, ?_, continues⟩
    rw [List.getElem?_append_left (by omega)]
    exact inside
  · rw [List.getElem?_append_right inRight] at found
    rcases rightLinked _ round found later with
      ⟨before, earlier, place, inside, continues⟩
    refine ⟨left.length + before, earlier, by omega, ?_, continues⟩
    rw [List.getElem?_append_right (Nat.le_add_right _ _),
      Nat.add_sub_cancel_left]
    exact inside

theorem linked_flatMap {steps : List Piece} {rounds : Piece → List PackRound}
    (linked : ∀ step, Linked (rounds step)) :
    Linked (steps.flatMap rounds) := by
  induction steps with
  | nil =>
      intro number round found
      cases found
  | cons step rest ih =>
      rw [List.flatMap_cons]
      exact (linked step).append ih

theorem linked_step (positive : 0 < args.blksz.KC) (step : Piece) :
    Linked ((pcLoop args.k args.blksz.KC args.k 0).map
      (roundAt args step)) := by
  intro number round found later
  rw [List.getElem?_map, Option.map_eq_some_iff] at found
  rcases found with ⟨row, inRows, rfl⟩
  have chain : Chain 0 (pcLoop args.k args.blksz.KC args.k 0) args.k :=
    pcLoop_chain positive args.k (Nat.le_add_left _ 0) (Nat.zero_le _)
  rcases chain.previous inRows with
    ⟨-, first⟩ | ⟨before, earlier, rfl, inside, ends⟩
  · exact absurd first later
  · refine ⟨before, roundAt args step earlier, rfl, ?_, rfl, rfl, rfl, ends⟩
    rw [List.getElem?_map, inside]
    rfl

theorem linked_packRounds (positive : 0 < args.blksz.KC) (tid : Nat) :
    Linked (args.packRounds tid) := by
  rw [packRounds_eq_map positive]
  exact linked_flatMap (linked_step positive)

end AoclDlp.Gemm.Rounds
