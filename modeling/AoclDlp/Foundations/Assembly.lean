import Mathlib.Data.List.Nodup
import Mathlib.Logic.Relation

/-!
# Programs with labels and jumps

A program is a list of instructions, labels and jumps.  Control is a position
in the list; a jump goes to the position of its label.  Instructions may fail,
so that a run that reaches the end of a program met no fault on the way.

Code is specified as a fragment: wherever it stands in a program with distinct
labels, control that enters at its top leaves at its bottom.  Fragments compose
by concatenation, and forward skips, two-way branches and counted loops have a
rule each.
-/

namespace AoclDlp.Foundations.Assembly

universe u v w x

/-- One item of a program. -/
inductive Item (Instr : Type u) (Cond : Type v) (Label : Type w) where
  | instr (instruction : Instr)
  | label (name : Label)
  | jmp (name : Label)
  | jcc (condition : Cond) (name : Label)
  deriving DecidableEq, Repr

/-- What instructions do and when conditions hold. -/
structure Semantics (Instr : Type u) (Cond : Type v) (State : Type x) where
  exec : Instr → State → Option State
  holds : Cond → State → Bool

section Programs

variable {Instr : Type u} {Cond : Type v} {Label : Type w} {State : Type x}

/-- The labels of a program. -/
def labels : List (Item Instr Cond Label) → List Label
  | [] => []
  | .label name :: rest => name :: labels rest
  | _ :: rest => labels rest

@[simp]
theorem labels_append (first second : List (Item Instr Cond Label)) :
    labels (first ++ second) = labels first ++ labels second := by
  induction first with
  | nil => rfl
  | cons item rest ih => cases item <;> simp [labels, ih]

theorem labels_instrs (code : List Instr) :
    labels (code.map (fun i => (.instr i : Item Instr Cond Label))) = [] := by
  induction code with
  | nil => rfl
  | cons head rest ih => simpa [labels] using ih

variable [DecidableEq Label]

/-- The position of a label. -/
def target (name : Label) : List (Item Instr Cond Label) → Option Nat
  | [] => none
  | .label other :: rest =>
      if other = name then some 0 else (target name rest).map (· + 1)
  | _ :: rest => (target name rest).map (· + 1)

variable (sem : Semantics Instr Cond State)

/-- One step from a position. -/
def step (program : List (Item Instr Cond Label)) (control : Nat × State) :
    Option (Nat × State) :=
  match program[control.1]? with
  | none => none
  | some (.instr instruction) =>
      (sem.exec instruction control.2).map fun next => (control.1 + 1, next)
  | some (.label _) => some (control.1 + 1, control.2)
  | some (.jmp name) =>
      (target name program).map fun position => (position, control.2)
  | some (.jcc condition name) =>
      if sem.holds condition control.2 then
        (target name program).map fun position => (position, control.2)
      else some (control.1 + 1, control.2)

/-- Finitely many steps. -/
def Steps (program : List (Item Instr Cond Label)) :
    Nat × State → Nat × State → Prop :=
  Relation.ReflTransGen fun control next =>
    step sem program control = some next

/-- A program that runs from its first item past its last one. -/
def Runs (program : List (Item Instr Cond Label)) (start final : State) :
    Prop :=
  Steps sem program (0, start) (program.length, final)

variable {sem} in
theorem Steps.one {program : List (Item Instr Cond Label)}
    {control next : Nat × State}
    (steps : step sem program control = some next) :
    Steps sem program control next :=
  Relation.ReflTransGen.single steps

/-- A program has at most one final state. -/
theorem Runs.unique {program : List (Item Instr Cond Label)}
    {start first second : State} (one : Runs sem program start first)
    (other : Runs sem program start second) : first = second := by
  have functional : Relator.RightUnique
      fun control next : Nat × State =>
        step sem program control = some next := by
    intro control left right leftStep rightStep
    rw [leftStep] at rightStep
    exact Option.some.inj rightStep
  have stuck (state : State) :
      step sem program (program.length, state) = none := by
    simp [step]
  rcases Relation.ReflTransGen.total_of_right_unique functional one other
    with forward | backward
  · rcases forward.cases_head with same | ⟨next, steps, _⟩
    · exact congrArg Prod.snd same
    · rw [stuck] at steps
      cases steps
  · rcases backward.cases_head with same | ⟨next, steps, _⟩
    · exact (congrArg Prod.snd same).symm
    · rw [stuck] at steps
      cases steps

/-! ## Fragments -/

/-- A fragment stands in a program at a position. -/
def Placed (program code : List (Item Instr Cond Label)) (position : Nat) :
    Prop :=
  ∃ before after, program = before ++ (code ++ after) ∧
    before.length = position

omit [DecidableEq Label] in
theorem Placed.left {program first second : List (Item Instr Cond Label)}
    {position : Nat} (placed : Placed program (first ++ second) position) :
    Placed program first position := by
  rcases placed with ⟨before, after, shape, length⟩
  exact ⟨before, second ++ after, by rw [shape, List.append_assoc], length⟩

omit [DecidableEq Label] in
theorem Placed.right {program first second : List (Item Instr Cond Label)}
    {position : Nat} (placed : Placed program (first ++ second) position) :
    Placed program second (position + first.length) := by
  rcases placed with ⟨before, after, shape, length⟩
  refine ⟨before ++ first, after, ?_, ?_⟩
  · rw [shape, List.append_assoc, List.append_assoc]
  · rw [List.length_append, length]

omit [DecidableEq Label] in
theorem Placed.item {program rest : List (Item Instr Cond Label)}
    {item : Item Instr Cond Label} {position : Nat}
    (placed : Placed program (item :: rest) position) :
    program[position]? = some item := by
  rcases placed with ⟨before, after, shape, rfl⟩
  rw [shape, List.getElem?_append_right (Nat.le_refl _), Nat.sub_self]
  rfl

theorem target_append {name : Label}
    {before rest : List (Item Instr Cond Label)}
    (absent : name ∉ labels before) :
    target name (before ++ rest) =
      (target name rest).map (· + before.length) := by
  induction before with
  | nil => simp
  | cons item others ih =>
      have rule : target name (item :: (others ++ rest)) =
          (target name (others ++ rest)).map (· + 1) := by
        cases item with
        | label other =>
            have different : other ≠ name := by
              rintro rfl
              exact absent List.mem_cons_self
            rw [target, if_neg different]
        | instr _ => rfl
        | jmp _ => rfl
        | jcc _ _ => rfl
      have absentRest : name ∉ labels others := by
        intro member
        apply absent
        cases item with
        | label other => exact List.mem_cons_of_mem _ member
        | instr _ => exact member
        | jmp _ => exact member
        | jcc _ _ => exact member
      rw [List.cons_append, rule, ih absentRest, Option.map_map]
      congr 1

/-- Labels that are distinct are found where they stand. -/
theorem target_of_placed {program : List (Item Instr Cond Label)}
    {name : Label} {position : Nat} (distinct : (labels program).Nodup)
    (placed : Placed program [.label name] position) :
    target name program = some position := by
  rcases placed with ⟨before, after, shape, rfl⟩
  have absent : name ∉ labels before := by
    intro member
    rw [shape, labels_append, labels_append] at distinct
    exact (List.disjoint_of_nodup_append distinct) member (by simp [labels])
  rw [shape, target_append absent]
  simp [target]

/-- Control that enters a fragment at its top leaves it at its bottom. -/
def Exec (code : List (Item Instr Cond Label)) (start final : State) : Prop :=
  ∀ program position, (labels program).Nodup →
    Placed program code position →
      Steps sem program (position, start) (position + code.length, final)

variable {sem}

/-- A whole program is a fragment of itself. -/
theorem Exec.runs {program : List (Item Instr Cond Label)}
    {start final : State} (exec : Exec sem program start final)
    (distinct : (labels program).Nodup) : Runs sem program start final := by
  have steps := exec program 0 distinct ⟨[], [], by simp, rfl⟩
  rw [Nat.zero_add] at steps
  exact steps

theorem Exec.nil (state : State) :
    Exec sem ([] : List (Item Instr Cond Label)) state state :=
  fun _ _ _ _ => Relation.ReflTransGen.refl

theorem Exec.append {first second : List (Item Instr Cond Label)}
    {start middle final : State} (one : Exec sem first start middle)
    (other : Exec sem second middle final) :
    Exec sem (first ++ second) start final := by
  intro program position distinct placed
  have upper := one program position distinct placed.left
  have lower := other program _ distinct placed.right
  rw [List.length_append, ← Nat.add_assoc]
  exact upper.trans lower

theorem Exec.instr {instruction : Instr} {start final : State}
    (executes : sem.exec instruction start = some final) :
    Exec sem [(.instr instruction : Item Instr Cond Label)] start final := by
  intro program position _ placed
  refine Steps.one ?_
  simp [step, placed.item, executes]

theorem Exec.label (name : Label) (state : State) :
    Exec sem [(.label name : Item Instr Cond Label)] state state := by
  intro program position _ placed
  refine Steps.one ?_
  simp [step, placed.item]

/-- A conditional jump that is not taken. -/
theorem Exec.pass {condition : Cond} {state : State} (name : Label)
    (fails : sem.holds condition state = false) :
    Exec sem [(.jcc condition name : Item Instr Cond Label)] state state := by
  intro program position _ placed
  refine Steps.one ?_
  simp [step, placed.item, fails]

/-- Control that leaves an item for a label behind it. -/
theorem Exec.forward {item : Item Instr Cond Label} {name : Label}
    {state : State} (body : List (Item Instr Cond Label))
    (jumps : ∀ program position, program[position]? = some item →
      step sem program (position, state) =
        (target name program).map fun place => (place, state)) :
    Exec sem (item :: (body ++ [.label name])) state state := by
  intro program position distinct placed
  have split : Placed program ((item :: body) ++ [.label name]) position :=
    placed
  have last := split.right
  have found := target_of_placed distinct last
  have jump : step sem program (position, state) =
      some (position + (item :: body).length, state) := by
    rw [jumps program position placed.item, found, Option.map_some]
  have exit : Steps sem program
      (position + (item :: body).length, state)
      (position + (item :: body).length +
        [(.label name : Item Instr Cond Label)].length, state) :=
    Exec.label name state program _ distinct last
  have ends : position + (item :: (body ++ [.label name])).length =
      position + (item :: body).length +
        [(.label name : Item Instr Cond Label)].length := by
    simp only [List.length_cons, List.length_append, List.length_nil]
    omega
  rw [ends]
  exact (Steps.one jump).trans exit

/-- Code that a jump skips. -/
theorem Exec.jump (name : Label) (state : State)
    (body : List (Item Instr Cond Label)) :
    Exec sem (.jmp name :: (body ++ [.label name])) state state :=
  Exec.forward body fun program position here => by
    simp only [step, here]

/-- Code that a conditional jump skips. -/
theorem Exec.skip {condition : Cond} {state : State} (name : Label)
    (body : List (Item Instr Cond Label))
    (holds : sem.holds condition state = true) :
    Exec sem (.jcc condition name :: (body ++ [.label name])) state state :=
  Exec.forward body fun program position here => by
    simp only [step, here, holds, if_true]

/-- The second branch of a two-way conditional. -/
theorem Exec.second {condition : Cond} {start final : State}
    {name done : Label} (body : List (Item Instr Cond Label))
    {other : List (Item Instr Cond Label)}
    (holds : sem.holds condition start = true)
    (runs : Exec sem other start final) :
    Exec sem (.jcc condition name :: (body ++ [.jmp done, .label name]) ++
      (other ++ [.label done])) start final := by
  have entry : Exec sem
      (.jcc condition name :: ((body ++ [.jmp done]) ++ [.label name]))
      start start := Exec.skip name (body ++ [.jmp done]) holds
  have whole := entry.append (runs.append (Exec.label done final))
  simpa only [List.append_assoc, List.cons_append, List.nil_append]
    using whole

/-- The first branch of a two-way conditional. -/
theorem Exec.first {condition : Cond} {start final : State}
    {name done : Label} {body : List (Item Instr Cond Label)}
    (other : List (Item Instr Cond Label))
    (fails : sem.holds condition start = false)
    (runs : Exec sem body start final) :
    Exec sem (.jcc condition name :: (body ++ [.jmp done, .label name]) ++
      (other ++ [.label done])) start final := by
  have whole := (Exec.pass name fails).append
    (runs.append (Exec.jump done final (.label name :: other)))
  simpa only [List.append_assoc, List.cons_append, List.nil_append]
    using whole

/-- A loop whose last jump is not taken. -/
theorem Exec.leave {condition : Cond} {start final : State} (name : Label)
    {body : List (Item Instr Cond Label)} (runs : Exec sem body start final)
    (fails : sem.holds condition final = false) :
    Exec sem (.label name :: (body ++ [.jcc condition name])) start final :=
  (Exec.label name start).append (runs.append (Exec.pass name fails))

/-- A loop that starts over. -/
theorem Exec.again {condition : Cond} {start middle final : State}
    {name : Label} {body : List (Item Instr Cond Label)}
    (runs : Exec sem body start middle)
    (holds : sem.holds condition middle = true)
    (rest : Exec sem (.label name :: (body ++ [.jcc condition name]))
      middle final) :
    Exec sem (.label name :: (body ++ [.jcc condition name])) start final := by
  intro program position distinct placed
  have split : Placed program
      ((.label name :: body) ++ [.jcc condition name]) position := placed
  have upper := ((Exec.label name start).append runs) program position
    distinct split.left
  have top : Placed program
      ([.label name] ++ (body ++ [.jcc condition name])) position := placed
  have found : target name program = some position :=
    target_of_placed distinct top.left
  have jump : step sem program
      (position + (.label name :: body).length, middle) =
        some (position, middle) := by
    simp only [step, split.right.item, holds, found, Option.map_some, if_true]
  exact (upper.trans (Steps.one jump)).trans
    (rest program position distinct placed)

/-- Control that enters a fragment at its top leaves it for a label. -/
def Exit (sem : Semantics Instr Cond State)
    (code : List (Item Instr Cond Label)) (start : State) (name : Label)
    (final : State) : Prop :=
  ∀ program position place, (labels program).Nodup →
    Placed program code position → target name program = some place →
      Steps sem program (position, start) (place, final)

/-- A fragment that ends with a jump. -/
theorem Exec.exit {code : List (Item Instr Cond Label)}
    {start final : State} (runs : Exec sem code start final)
    (name : Label) : Exit sem (code ++ [.jmp name]) start name final := by
  intro program position place distinct placed found
  have upper := runs program position distinct placed.left
  have jump : step sem program (position + code.length, final) =
      some (place, final) := by
    simp only [step, placed.right.item, found, Option.map_some]
  exact upper.trans (Steps.one jump)

theorem Exec.before {first second : List (Item Instr Cond Label)}
    {start middle final : State} {name : Label}
    (one : Exec sem first start middle)
    (other : Exit sem second middle name final) :
    Exit sem (first ++ second) start name final := by
  intro program position place distinct placed found
  exact (one program position distinct placed.left).trans
    (other program _ place distinct placed.right found)

/-- What stands between an exit and its label is passed over. -/
theorem Exit.land {code : List (Item Instr Cond Label)}
    {start final : State} {name : Label}
    (exits : Exit sem code start name final)
    (rest : List (Item Instr Cond Label)) :
    Exec sem (code ++ (rest ++ [.label name])) start final := by
  intro program position distinct placed
  have last := placed.right.right
  have found := target_of_placed distinct last
  have upper := exits program position _ distinct placed.left found
  have lower : Steps sem program
      (position + code.length + rest.length, final)
      (position + code.length + rest.length +
        [(.label name : Item Instr Cond Label)].length, final) :=
    Exec.label name final program _ distinct last
  have ends : position + (code ++
      (rest ++ [(.label name : Item Instr Cond Label)])).length =
      position + code.length + rest.length +
        [(.label name : Item Instr Cond Label)].length := by
    simp only [List.length_append]
    omega
  rw [ends]
  exact upper.trans lower

/-- Run instructions one after the other. -/
def execAll (sem : Semantics Instr Cond State) :
    List Instr → State → Option State
  | [], state => some state
  | instruction :: rest, state =>
      (sem.exec instruction state).bind (execAll sem rest)

omit [DecidableEq Label] in
theorem execAll_append (sem : Semantics Instr Cond State)
    (first second : List Instr) (state : State) :
    execAll sem (first ++ second) state =
      (execAll sem first state).bind (execAll sem second) := by
  induction first generalizing state with
  | nil => rfl
  | cons head rest ih =>
      simp only [List.cons_append, execAll, Option.bind_assoc]
      congr 1
      funext next
      exact ih next

/-- Instructions without a jump run one after the other. -/
theorem Exec.all {instrs : List Instr} {start final : State}
    (runs : execAll sem instrs start = some final) :
    Exec sem (instrs.map fun i => (.instr i : Item Instr Cond Label))
      start final := by
  induction instrs generalizing start with
  | nil =>
      cases runs
      exact Exec.nil _
  | cons head rest ih =>
      rcases Option.bind_eq_some_iff.mp runs with ⟨next, first, others⟩
      exact (Exec.instr first).append (ih others)

end Programs

/-! ## Triples -/

section Triples

variable {Instr : Type u} {Cond : Type v} {Label : Type w} {State : Type x}
variable [DecidableEq Label] {sem : Semantics Instr Cond State}

variable (sem) in
/-- From `pre` the code runs to its bottom and establishes `post`. -/
def Triple (pre : State → Prop) (code : List (Item Instr Cond Label))
    (post : State → Prop) : Prop :=
  ∀ state, pre state → ∃ final, Exec sem code state final ∧ post final

namespace Triple

variable {pre middle post : State → Prop}
variable {code first second : List (Item Instr Cond Label)}

theorem nil (implies : ∀ state, pre state → post state) :
    Triple sem pre ([] : List (Item Instr Cond Label)) post :=
  fun state holds => ⟨state, Exec.nil state, implies state holds⟩

theorem seq (one : Triple sem pre first middle)
    (other : Triple sem middle second post) :
    Triple sem pre (first ++ second) post := by
  intro state holds
  rcases one state holds with ⟨between, upper, reached⟩
  rcases other between reached with ⟨final, lower, last⟩
  exact ⟨final, upper.append lower, last⟩

theorem weaken {stronger weaker : State → Prop}
    (triple : Triple sem pre code post)
    (before : ∀ state, stronger state → pre state)
    (after : ∀ state, post state → weaker state) :
    Triple sem stronger code weaker := by
  intro state holds
  rcases triple state (before state holds) with ⟨final, runs, reached⟩
  exact ⟨final, runs, after final reached⟩

theorem instr {instruction : Instr} {effect : State → State}
    (executes : ∀ state, pre state →
      sem.exec instruction state = some (effect state))
    (reaches : ∀ state, pre state → post (effect state)) :
    Triple sem pre [(.instr instruction : Item Instr Cond Label)] post :=
  fun state holds =>
    ⟨effect state, Exec.instr (executes state holds), reaches state holds⟩

theorem label (name : Label) (implies : ∀ state, pre state → post state) :
    Triple sem pre [(.label name : Item Instr Cond Label)] post :=
  fun state holds => ⟨state, Exec.label name state, implies state holds⟩

/-- Code that is emitted once for each index. -/
theorem range {count : Nat} (Inv : Nat → State → Prop)
    {body : Nat → List (Item Instr Cond Label)}
    (each : ∀ index < count,
      Triple sem (Inv index) (body index) (Inv (index + 1))) :
    Triple sem (Inv 0) ((List.range count).flatMap body) (Inv count) := by
  induction count with
  | zero => exact nil fun _ holds => holds
  | succ count ih =>
      rw [List.range_succ, List.flatMap_append]
      have upper := ih fun index below => each index (by omega)
      have last := each count (by omega)
      simp only [List.flatMap_cons, List.flatMap_nil, List.append_nil]
      exact upper.seq last

/-- Instructions without a jump. -/
theorem all {instrs : List Instr}
    (each : ∀ state, pre state →
      ∃ final, execAll sem instrs state = some final ∧ post final) :
    Triple sem pre
      (instrs.map fun i => (.instr i : Item Instr Cond Label)) post := by
  intro state holds
  rcases each state holds with ⟨final, runs, reached⟩
  exact ⟨final, Exec.all runs, reached⟩

/-- One instruction for each index. -/
theorem mapRange {count : Nat} (Inv : Nat → State → Prop)
    {instruction : Nat → Instr}
    (each : ∀ index < count, ∀ state, Inv index state →
      ∃ next, sem.exec (instruction index) state = some next ∧
        Inv (index + 1) next) :
    Triple sem (Inv 0)
      (((List.range count).map instruction).map
        fun i => (.instr i : Item Instr Cond Label)) (Inv count) := by
  have shape : ((List.range count).map instruction).map
      (fun i => (.instr i : Item Instr Cond Label)) =
        (List.range count).flatMap fun index =>
          [Item.instr (instruction index)] := by
    rw [List.map_map]
    exact List.map_eq_flatMap
  rw [shape]
  refine range Inv fun index below state holds => ?_
  rcases each index below state holds with ⟨next, executes, reached⟩
  exact ⟨next, Exec.instr executes, reached⟩

/-- Instructions for each index. -/
theorem flatMapRange {count : Nat} (Inv : Nat → State → Prop)
    {instrs : Nat → List Instr}
    (each : ∀ index < count, Triple sem (Inv index)
      ((instrs index).map fun i => (.instr i : Item Instr Cond Label))
      (Inv (index + 1))) :
    Triple sem (Inv 0)
      (((List.range count).flatMap instrs).map
        fun i => (.instr i : Item Instr Cond Label)) (Inv count) := by
  rw [List.map_flatMap]
  exact range Inv each

/-- Code behind a forward jump. -/
theorem skip {condition : Cond} {name : Label}
    (taken : ∀ state, pre state → sem.holds condition state = true →
      post state)
    (body : Triple sem (fun state => pre state ∧
      sem.holds condition state = false) code post) :
    Triple sem pre (.jcc condition name :: (code ++ [.label name])) post := by
  intro state holds
  cases outcome : sem.holds condition state with
  | true => exact ⟨state, Exec.skip name code outcome,
      taken state holds outcome⟩
  | false =>
      rcases body state ⟨holds, outcome⟩ with ⟨final, runs, reached⟩
      exact ⟨final, (Exec.pass name outcome).append
        (runs.append (Exec.label name final)), reached⟩

/-- A two-way branch. -/
theorem branch {condition : Cond} {name done : Label}
    (whenFalse : Triple sem (fun state => pre state ∧
      sem.holds condition state = false) first post)
    (whenTrue : Triple sem (fun state => pre state ∧
      sem.holds condition state = true) second post) :
    Triple sem pre
      (.jcc condition name :: (first ++ [.jmp done, .label name]) ++
        (second ++ [.label done])) post := by
  intro state holds
  cases outcome : sem.holds condition state with
  | true =>
      rcases whenTrue state ⟨holds, outcome⟩ with ⟨final, runs, reached⟩
      exact ⟨final, Exec.second first outcome runs, reached⟩
  | false =>
      rcases whenFalse state ⟨holds, outcome⟩ with ⟨final, runs, reached⟩
      exact ⟨final, Exec.first second outcome runs, reached⟩

/-- A loop that is left after a known number of rounds. -/
theorem loop {condition : Cond} {name : Label} {count : Nat}
    (Inv : Nat → State → Prop) (positive : 0 < count)
    (each : ∀ index < count,
      Triple sem (Inv index) code (fun state => Inv (index + 1) state ∧
        sem.holds condition state = decide (index + 1 < count))) :
    Triple sem (Inv 0) (.label name :: (code ++ [.jcc condition name]))
      (Inv count) := by
  have rounds : ∀ left index, index + left = count → 0 < left →
      Triple sem (Inv index)
        (.label name :: (code ++ [.jcc condition name])) (Inv count) := by
    intro left
    induction left with
    | zero => exact fun _ _ none => absurd none (Nat.lt_irrefl 0)
    | succ left ih =>
        intro index total _ state holds
        rcases each index (by omega) state holds with
          ⟨next, runs, reached, outcome⟩
        rcases Nat.eq_zero_or_pos left with rfl | more
        · have leaves : sem.holds condition next = false := by
            rw [outcome, decide_eq_false_iff_not]
            omega
          have last : index + 1 = count := by omega
          exact ⟨next, Exec.leave name runs leaves, last ▸ reached⟩
        · have again : sem.holds condition next = true := by
            rw [outcome, decide_eq_true_eq]
            omega
          rcases ih (index + 1) (by omega) more next reached with
            ⟨final, rest, done⟩
          exact ⟨final, Exec.again runs again rest, done⟩
  exact rounds count 0 (Nat.zero_add count) positive

end Triple

end Triples

end AoclDlp.Foundations.Assembly
