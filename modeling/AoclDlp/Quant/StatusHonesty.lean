import AoclDlp.Quant.ScaleSwap

/-!
# What the status of a sym-quant GEMM tells

A call records success first and every refusal overwrites it, so success at the
end should mean that a threading decorator ran.  The buffers of the transposed
scale factors are returned behind the exit label, whichever way it is reached.

Up to the decorator the log of a call holds the allocations of the buffers
whose pointers are not NULL, and the output is untouched.
-/

namespace AoclDlp.Quant.StatusHonesty

open AoclDlp.Api.F32Gemm
open AoclDlp.Api.GemmCheck
open AoclDlp.Api.Normalisation
open AoclDlp.Config.LocalContext
open AoclDlp.Foundations.Exits
open AoclDlp.Quant.KernelInit
open AoclDlp.Quant.ScaleSwap
open AoclDlp.Quant.SymQuant
open AoclDlp.Quant.SymQuantCall

variable {Cell : Type}

/-! ## Honest calls -/

/-- The event is an allocation of the buffer. -/
def allocates (buffer : ScaleBuffer) : Event → Bool
  | .allocated other => decide (other = buffer)
  | _ => false

/-- The event returns the buffer. -/
def frees (buffer : ScaleBuffer) : Event → Bool
  | .freed other => decide (other = buffer)
  | _ => false

/-- The call of a decorator that an event is. -/
def decoration : Event → Option (Bool × SymQuantProblem)
  | .decorated openmp problem => some (openmp, problem)
  | _ => none

/-- The calls of the threading decorators. -/
def decorations (log : List Event) : List (Bool × SymQuantProblem) :=
  log.filterMap decoration

/-- The problem is the caller's, or in column major its transpose, with
scalars and tags that the frame takes. -/
structure Normalised (args : SymQuantArgs) (problem : SymQuantProblem) :
    Prop where
  presents : Presents problem.ops args.gemm (isColumnMajor args.gemm.order)
  k : problem.k = args.gemm.k.toNat
  alpha : problem.alpha = args.alpha
  beta : problem.beta = args.beta
  mtagA : problem.ops.mtagA ≠ .reordered
  mtagB : problem.ops.mtagB ≠ .unpacked

/-- A final state that tells the truth about a call. -/
structure Honest (around : CallSurroundings Cell) (args : SymQuantArgs)
    (c : Nat → Cell) (final : CallState Cell) : Prop where
  succeeded : final.errorCode = some .success →
    ∃ openmp problem, decorations final.log = [(openmp, problem)] ∧
      Normalised args problem ∧ final.c = around.decorator openmp problem c
  refused : final.errorCode ≠ some .success →
    decorations final.log = [] ∧ final.c = c
  allocatedOnce : ∀ buffer, final.log.countP (allocates buffer) ≤ 1
  freed : ∀ buffer, final.log.countP (frees buffer) =
    final.log.countP (allocates buffer)

/-- A call that passes its checks and whose scale factors find no room. -/
def Starved (around : CallSurroundings Cell) (args : SymQuantArgs)
    (metadata : Option SymQuantMetadata) : Prop :=
  isColumnMajor args.gemm.order = true ∧
    (∃ accepted, acceptCall around args.gemm metadata = .ok accepted) ∧
    (around.mallocA = none ∨ around.mallocB = none)

/-! ## The states of a call -/

/-- The allocations of the buffers that are held. -/
def heldEvents (held : ScaleBuffer → Bool) : List Event :=
  ([ScaleBuffer.a, .b].filter held).map .allocated

/-- Nothing but the allocations of the held buffers has happened. -/
structure Quiet (metadata : Option SymQuantMetadata) (c : Nat → Cell)
    (code : ErrorCode) (state : CallState Cell) : Prop where
  errorCode : state.errorCode = metadata.map fun _ => code
  log : state.log = heldEvents state.held
  c : state.c = c

/-- A decorator has run after the allocations of the held buffers. -/
structure Decorated (around : CallSurroundings Cell) (args : SymQuantArgs)
    (c : Nat → Cell) (state : CallState Cell) : Prop where
  errorCode : state.errorCode = some .success
  decorated : ∃ openmp problem,
    state.log = heldEvents state.held ++ [.decorated openmp problem] ∧
      Normalised args problem ∧ state.c = around.decorator openmp problem c

/-- How a call leaves: with an error, or starved and without one. -/
def Left (around : CallSurroundings Cell) (args : SymQuantArgs)
    (metadata : Option SymQuantMetadata) (c : Nat → Cell)
    (state : CallState Cell) : Prop :=
  (Starved around args metadata ∧ Quiet metadata c .success state) ∨
    (¬ Starved around args metadata ∧
      ∃ error, Quiet metadata c (.failed error) state)

section Steps

variable (metadata : Option SymQuantMetadata) (c : Nat → Cell)

variable {metadata c} in
theorem Quiet.setError {code : ErrorCode} {state : CallState Cell}
    (quiet : Quiet metadata c code state) (next : ErrorCode) :
    Quiet metadata c next (state.setError next) where
  errorCode := by
    rw [CallState.setError, quiet.errorCode, Option.map_map]
    rfl
  log := quiet.log
  c := quiet.c

variable {metadata c} in
/-- A buffer is taken in order, the one of A first. -/
theorem Quiet.allocate {code : ErrorCode} {state : CallState Cell}
    {buffer : ScaleBuffer} (quiet : Quiet metadata c code state)
    (fresh : state.held .b = false ∧
      (buffer = .a → state.held .a = false)) :
    Quiet metadata c code (state.allocate buffer) where
  errorCode := quiet.errorCode
  log := by
    rw [CallState.allocate, quiet.log]
    cases buffer with
    | a => simp [heldEvents, fresh.1, fresh.2 rfl]
    | b =>
        cases first : state.held .a with
        | true => simp [heldEvents, fresh.1, first]
        | false => simp [heldEvents, fresh.1, first]
  c := quiet.c

theorem fail_triple {Value : Type} {error : DlpClscErr} {code : ErrorCode}
    {post : Value → CallState Cell → Prop} :
    Triple (Quiet metadata c code) (fail error : Call Cell Value) post
      (Quiet metadata c (.failed error)) := by
  intro state quiet
  exact quiet.setError _

variable {metadata c} in
theorem check_triple {Value : Type} {step : Except DlpClscErr Value}
    {pre : CallState Cell → Prop}
    (quiet : ∀ state, pre state → Quiet metadata c .success state) :
    Triple pre (check step)
      (fun value state => step = .ok value ∧ pre state)
      (fun state => (∃ error, step = .error error) ∧
        ∃ error, Quiet metadata c (.failed error) state) := by
  intro state holds
  cases step with
  | ok value => exact ⟨rfl, holds⟩
  | error error =>
      exact ⟨⟨error, rfl⟩, error, (quiet state holds).setError _⟩

theorem transposeInto_triple {buffer : ScaleBuffer} {malloc : Option Bytes}
    {scales : Bytes} {rows cols elemSize : Nat} :
    Triple
      (fun state => Quiet metadata c .success state ∧
        state.held .b = false ∧ (buffer = .a → state.held .a = false))
      (transposeInto buffer malloc (some scales) rows cols elemSize)
      (fun _ state => malloc ≠ none ∧ Quiet metadata c .success state ∧
        (buffer = .a → state.held .b = false))
      (fun state : CallState Cell => malloc = none ∧
        Quiet metadata c .success state) := by
  rintro state ⟨quiet, fresh⟩
  cases malloc with
  | none => exact ⟨rfl, quiet⟩
  | some bytes =>
      refine ⟨Option.some_ne_none bytes, quiet.allocate fresh, ?_⟩
      rintro rfl
      change Function.update state.held .a true .b = false
      rw [Function.update_of_ne (by decide)]
      exact fresh.1

/-- No buffer is held yet. -/
def Unheld (state : CallState Cell) : Prop :=
  state.held .b = false ∧ state.held .a = false

theorem columnMajorNode_triple {around : CallSurroundings Cell}
    {args : GemmArgs} {accepted : AcceptedCall}
    (scaled : ScaledCall around args accepted) :
    Triple (fun state => Quiet metadata c .success state ∧ Unheld state)
      (columnMajorNode around args accepted.node)
      (fun _ state => ¬ (around.mallocA = none ∨ around.mallocB = none) ∧
        Quiet metadata c .success state)
      (fun state => (around.mallocA = none ∨ around.mallocB = none) ∧
        Quiet metadata c .success state) := by
  unfold columnMajorNode
  rw [scaled.aScales, scaled.bScales]
  refine Triple.seq ((transposeInto_triple metadata c).weaken ?_
    (fun _ _ reached => reached) ?_) ?_
  · rintro state ⟨quiet, unheld⟩
    exact ⟨quiet, unheld.1, fun _ => unheld.2⟩
  · rintro state ⟨empty, quiet⟩
    exact ⟨Or.inl empty, quiet⟩
  intro aBuf
  refine Triple.assume fun fullA => ?_
  refine Triple.seq ((transposeInto_triple metadata c).weaken ?_
    (fun _ _ reached => reached) ?_) ?_
  · rintro state ⟨quiet, unheld⟩
    exact ⟨quiet, unheld rfl, fun second => by cases second⟩
  · rintro state ⟨empty, quiet⟩
    exact ⟨Or.inr empty, quiet⟩
  intro bBuf
  apply Triple.ret
  rintro state ⟨fullB, quiet, -⟩
  exact ⟨not_or.mpr ⟨fullA, fullB⟩, quiet⟩

end Steps

/-! ## The prepared problem -/

theorem metadata_of_accepted {around : CallSurroundings Cell}
    {args : GemmArgs} {metadata : Option SymQuantMetadata}
    {accepted : AcceptedCall}
    (accepts : acceptCall around args metadata = .ok accepted) :
    metadata.isSome = true := by
  unfold acceptCall at accepts
  rcases bind_ok accepts with ⟨_, -, accepts⟩
  rcases bind_ok accepts with ⟨_, -, accepts⟩
  rcases bind_ok accepts with ⟨_, -, accepts⟩
  rcases bind_ok accepts with ⟨_, states, -⟩
  unfold statedOps at states
  split at states
  next => cases states
  next => rfl

theorem checks_of_accepted {around : CallSurroundings Cell}
    {args : GemmArgs} {metadata : Option SymQuantMetadata}
    {accepted : AcceptedCall}
    (accepts : acceptCall around args metadata = .ok accepted) :
    aoclDlpGemmCheck args = .ok () ∧ refusesTags args = false := by
  unfold acceptCall at accepts
  rcases bind_ok accepts with ⟨_, -, accepts⟩
  rcases bind_ok accepts with ⟨_, checks, accepts⟩
  rcases bind_ok accepts with ⟨_, tags, -⟩
  exact ⟨checks, (runRules_ok_iff _).mp tags
    ⟨refusesTags args, .notSupported⟩ (by simp)⟩

theorem not_rowMajor_of_columnMajor {order : Char}
    (column : isColumnMajor order = true) :
    ¬ isRowMajor order = true := by
  simp only [isColumnMajor, isRowMajor, Bool.or_eq_true, beq_iff_eq]
    at column ⊢
  rcases column with rfl | rfl
  · decide
  · decide

/-- The operands of the frame present the caller's problem. -/
theorem symQuantOperands_presents {args : GemmArgs}
    (checks : aoclDlpGemmCheck args = .ok ()) :
    Presents (symQuantOperands args) args (isColumnMajor args.order) := by
  unfold Presents symQuantOperands
  dsimp only
  by_cases column : isColumnMajor args.order = true
  · rw [if_pos column, column, kernelProblem_swap]
    exact congrArg Problem.transpose
      (kernelProblem_stored_column (not_rowMajor_of_columnMajor column))
  · have rowMajor := (order_of_check checks).resolve_right column
    rw [if_neg column, Bool.eq_false_of_not_eq_true column]
    exact kernelProblem_stored rowMajor

/-- The frame never sees a reordered A or an unpacked B. -/
theorem symQuantOperands_tags {args : GemmArgs}
    (checks : aoclDlpGemmCheck args = .ok ())
    (accepts : refusesTags args = false) :
    (symQuantOperands args).mtagA ≠ .reordered ∧
      (symQuantOperands args).mtagB ≠ .unpacked := by
  have tags := accepts
  simp only [refusesTags, Bool.or_eq_false_iff, decide_eq_false_iff_not,
    Bool.and_eq_false_iff] at tags
  unfold symQuantOperands
  dsimp only
  by_cases column : isColumnMajor args.order = true
  · have storedB := tags.2.resolve_left (by rw [column]; decide)
    rw [if_pos column]
    change (symQuantTags args).2 ≠ .reordered ∧
      (symQuantTags args).1 ≠ .unpacked
    unfold symQuantTags
    dsimp only
    rw [if_neg (not_rowMajor_of_columnMajor column)]
    constructor
    · dsimp only
      split_ifs <;> first | decide | exact storedB
    · dsimp only
      split_ifs with unpacked
      · decide
      · exact unpacked
  · have rowMajor := (order_of_check checks).resolve_right column
    rw [if_neg column]
    change (symQuantTags args).1 ≠ .reordered ∧
      (symQuantTags args).2 ≠ .unpacked
    unfold symQuantTags
    dsimp only
    rw [if_pos rowMajor]
    constructor
    · dsimp only
      split_ifs <;> first | decide | exact tags.1
    · dsimp only
      split_ifs with unpacked
      · decide
      · exact unpacked

theorem normalised_of_prepared {around : CallSurroundings Cell}
    {args : SymQuantArgs} {metadata : Option SymQuantMetadata}
    {accepted : AcceptedCall} {node : GroupNode} {problem : SymQuantProblem}
    (accepts : acceptCall around args.gemm metadata = .ok accepted)
    (prepares : prepareProblem around args accepted node = .ok problem) :
    Normalised args problem := by
  rcases checks_of_accepted accepts with ⟨checks, tags⟩
  rcases symQuantOperands_tags checks tags with ⟨mtagA, mtagB⟩
  unfold prepareProblem at prepares
  rcases bind_ok prepares with ⟨_, -, prepares⟩
  rcases bind_ok prepares with ⟨_, -, prepares⟩
  rcases bind_ok prepares with ⟨_, -, prepares⟩
  cases prepares
  exact ⟨symQuantOperands_presents checks, rfl, rfl, rfl, mtagA, mtagB⟩

/-- The kernel request changes only the context. -/
theorem handed_of_handle {engine : QuantEngine}
    {problem handed : SymQuantProblem}
    (handle : quantKernelHandle engine problem = some handed) :
    ∃ lcntx, handed = { problem with lcntx := lcntx } := by
  unfold quantKernelHandle at handle
  split at handle
  next => cases handle
  next =>
    split at handle
    next =>
      cases handle
      exact ⟨_, rfl⟩
    next => cases handle

section Runs

variable (around : CallSurroundings Cell) (args : SymQuantArgs)
    (metadata : Option SymQuantMetadata) (c : Nat → Cell)

/-- A call that prepares a problem was not starved; any other one left. -/
theorem preparedProblem_triple :
    Triple (fun state => Quiet metadata c .success state ∧ Unheld state)
      (preparedProblem around args metadata)
      (fun problem state => (¬ Starved around args metadata ∧
          metadata.isSome = true ∧ Normalised args problem) ∧
        Quiet metadata c .success state)
      (Left around args metadata c) := by
  unfold preparedProblem
  refine Triple.seq ((check_triple fun _ => And.left).weaken
    (fun _ holds => holds) (fun _ _ reached => reached) ?_) ?_
  · rintro state ⟨⟨error, refuses⟩, left⟩
    refine Or.inr ⟨?_, left⟩
    rintro ⟨-, ⟨accepted, accepts⟩, -⟩
    cases accepts.symm.trans refuses
  intro accepted
  refine Triple.assume fun accepts => ?_
  have scaled := scaledCall_of_accepted accepts
  have swapped : Triple
      (fun state => Quiet metadata c .success state ∧ Unheld state)
      (frameNode around args.gemm accepted.node)
      (fun _ state => ¬ Starved around args metadata ∧
        Quiet metadata c .success state)
      (Left around args metadata c) := by
    unfold frameNode
    by_cases column : isColumnMajor args.gemm.order = true
    · rw [if_pos column]
      refine (columnMajorNode_triple metadata c scaled).weaken
        (fun _ holds => holds) ?_ ?_
      · rintro _ state ⟨full, quiet⟩
        exact ⟨fun starved => full starved.2.2, quiet⟩
      · rintro state ⟨empty, quiet⟩
        exact Or.inl ⟨⟨column, ⟨accepted, accepts⟩, empty⟩, quiet⟩
    · rw [if_neg column]
      exact Triple.ret fun state holds =>
        ⟨fun starved => column starved.1, holds.1⟩
  refine Triple.seq swapped fun node => ?_
  refine Triple.assume fun fed => ?_
  refine (check_triple fun _ quiet => quiet).weaken (fun _ holds => holds)
    ?_ ?_
  · rintro problem state ⟨prepares, quiet⟩
    exact ⟨⟨fed, metadata_of_accepted accepts,
      normalised_of_prepared accepts prepares⟩, quiet⟩
  · rintro state ⟨-, left⟩
    exact Or.inr ⟨fed, left⟩

theorem requestAndDecorate_triple {problem : SymQuantProblem}
    (fed : ¬ Starved around args metadata) (present : metadata.isSome = true)
    (normalised : Normalised args problem) :
    Triple (Quiet metadata c .success) (requestAndDecorate around problem)
      (fun _ state => ¬ Starved around args metadata ∧
        Decorated around args c state)
      (Left around args metadata c) := by
  unfold requestAndDecorate
  cases handle : quantKernelHandle around.engine problem with
  | none =>
      exact (fail_triple metadata c).weaken (fun _ quiet => quiet)
        (fun _ _ reached => reached)
        fun _ quiet => Or.inr ⟨fed, _, quiet⟩
  | some handed =>
      rcases handed_of_handle handle with ⟨lcntx, rfl⟩
      rcases Option.isSome_iff_exists.mp present with ⟨stated, rfl⟩
      apply Triple.update
      intro state quiet
      refine ⟨fed, quiet.errorCode, !dlpIsSingleThread around.rntm,
        { problem with lcntx := lcntx }, ?_, ?_, ?_⟩
      · exact congrArg (· ++ [_]) quiet.log
      · exact ⟨normalised.presents, normalised.k, normalised.alpha,
          normalised.beta, normalised.mtagA, normalised.mtagB⟩
      · exact congrArg _ quiet.c

/-- A call decorates a normalised problem, or leaves. -/
theorem symQuantBody_triple (code : ErrorCode) :
    Triple (fun state => Quiet metadata c code state ∧ Unheld state)
      (symQuantBody around args metadata)
      (fun _ state => ¬ Starved around args metadata ∧
        Decorated around args c state)
      (Left around args metadata c) := by
  have success : Triple
      (fun state => Quiet metadata c code state ∧ Unheld state)
      (modify (CallState.setError .success) : Call Cell Unit)
      (fun _ state => Quiet metadata c .success state ∧ Unheld state)
      (Left around args metadata c) :=
    Triple.update fun _ holds => ⟨holds.1.setError .success, holds.2⟩
  refine Triple.seq success fun _ => ?_
  refine Triple.seq (preparedProblem_triple around args metadata c) ?_
  intro problem
  refine Triple.assume fun prepared => ?_
  rcases prepared with ⟨fed, present, normalised⟩
  exact requestAndDecorate_triple around args metadata c fed present
    normalised

end Runs

/-! ## Behind the exit label -/

/-- The returns of the buffers that are held. -/
def freedEvents (held : ScaleBuffer → Bool) : List Event :=
  ([ScaleBuffer.a, .b].filter held).map .freed

theorem cleanUp_log (state : CallState Cell) :
    state.cleanUp.log = state.log ++ freedEvents state.held := by
  unfold CallState.cleanUp CallState.freeHeld freedEvents
  cases first : state.held .a with
  | true =>
      cases second : state.held .b with
      | true => simp [first, second]
      | false => simp [first, second]
  | false =>
      cases second : state.held .b with
      | true => simp [first, second]
      | false => simp [first, second]

theorem cleanUp_errorCode (state : CallState Cell) :
    state.cleanUp.errorCode = state.errorCode := by
  unfold CallState.cleanUp CallState.freeHeld
  split_ifs <;> rfl

theorem cleanUp_c (state : CallState Cell) :
    state.cleanUp.c = state.c := by
  unfold CallState.cleanUp CallState.freeHeld
  split_ifs <;> rfl

/-- The held buffers are allocated once and returned once. -/
theorem countP_events (held : ScaleBuffer → Bool) (buffer : ScaleBuffer) :
    (heldEvents held).countP (allocates buffer) =
        (if held buffer then 1 else 0) ∧
      (heldEvents held).countP (frees buffer) = 0 ∧
      (freedEvents held).countP (allocates buffer) = 0 ∧
      (freedEvents held).countP (frees buffer) =
        (if held buffer then 1 else 0) := by
  unfold heldEvents freedEvents
  cases first : held .a with
  | true =>
      cases second : held .b with
      | true => cases buffer <;> simp [first, second, allocates, frees]
      | false => cases buffer <;> simp [first, second, allocates, frees]
  | false =>
      cases second : held .b with
      | true => cases buffer <;> simp [first, second, allocates, frees]
      | false => cases buffer <;> simp [first, second]

theorem decorations_buffers (held : ScaleBuffer → Bool) :
    decorations (heldEvents held) = [] ∧
      decorations (freedEvents held) = [] := by
  constructor
  · rw [decorations, List.filterMap_eq_nil_iff]
    intro event member
    rcases List.mem_map.mp member with ⟨buffer, -, rfl⟩
    rfl
  · rw [decorations, List.filterMap_eq_nil_iff]
    intro event member
    rcases List.mem_map.mp member with ⟨buffer, -, rfl⟩
    rfl

section Final

variable {around : CallSurroundings Cell} {args : SymQuantArgs}
    {metadata : Option SymQuantMetadata} {c : Nat → Cell}
    {state : CallState Cell}

/-- Whatever a call did between, its buffers come and go once. -/
theorem buffers_of_log {events : List Event}
    (log : state.log = heldEvents state.held ++ events)
    (others : ∀ buffer, events.countP (allocates buffer) = 0 ∧
      events.countP (frees buffer) = 0) (buffer : ScaleBuffer) :
    state.cleanUp.log.countP (allocates buffer) ≤ 1 ∧
      state.cleanUp.log.countP (frees buffer) =
        state.cleanUp.log.countP (allocates buffer) := by
  rcases countP_events state.held buffer with ⟨taken, early, late, given⟩
  rcases others buffer with ⟨noneTaken, noneGiven⟩
  rw [cleanUp_log, log]
  simp only [List.countP_append, taken, early, late, given, noneTaken,
    noneGiven, Nat.add_zero, Nat.zero_add, and_true]
  split_ifs <;> decide

theorem honest_of_decorated (decorated : Decorated around args c state) :
    Honest around args c state.cleanUp := by
  rcases decorated.decorated with ⟨openmp, problem, log, normalised, output⟩
  rcases decorations_buffers state.held with ⟨before, after⟩
  have buffers := buffers_of_log log fun buffer => ⟨rfl, rfl⟩
  constructor
  case succeeded =>
    intro _
    refine ⟨openmp, problem, ?_, normalised, (cleanUp_c state).trans output⟩
    rw [cleanUp_log, log, decorations, List.filterMap_append,
      List.filterMap_append]
    change decorations _ ++ [(openmp, problem)] ++ decorations _ = _
    rw [before, after]
    rfl
  case refused =>
    intro failed
    rw [cleanUp_errorCode] at failed
    exact absurd decorated.errorCode failed
  case allocatedOnce => exact fun buffer => (buffers buffer).1
  case freed => exact fun buffer => (buffers buffer).2

theorem decorations_of_quiet {code : ErrorCode}
    (quiet : Quiet metadata c code state) :
    decorations state.cleanUp.log = [] := by
  rcases decorations_buffers state.held with ⟨before, after⟩
  rw [cleanUp_log, quiet.log, decorations, List.filterMap_append]
  change decorations _ ++ decorations _ = _
  rw [before, after]
  rfl

theorem honest_of_failed {error : DlpClscErr}
    (quiet : Quiet metadata c (.failed error) state) :
    Honest around args c state.cleanUp := by
  have log : state.log = heldEvents state.held ++ [] :=
    quiet.log.trans (List.append_nil _).symm
  have buffers := buffers_of_log log fun _ => ⟨rfl, rfl⟩
  constructor
  case succeeded =>
    intro success
    rw [cleanUp_errorCode, quiet.errorCode] at success
    cases metadata with
    | none => cases success
    | some stated => cases success
  case refused =>
    intro _
    exact ⟨decorations_of_quiet quiet, (cleanUp_c state).trans quiet.c⟩
  case allocatedOnce => exact fun buffer => (buffers buffer).1
  case freed => exact fun buffer => (buffers buffer).2

/-- A starved call reports success over an untouched output. -/
theorem not_honest_of_starved (starved : Starved around args metadata)
    (quiet : Quiet metadata c .success state) :
    ¬ Honest around args c state.cleanUp := by
  intro honest
  rcases starved with ⟨-, ⟨accepted, accepts⟩, -⟩
  rcases Option.isSome_iff_exists.mp (metadata_of_accepted accepts) with
    ⟨stated, rfl⟩
  rcases honest.succeeded ((cleanUp_errorCode state).trans quiet.errorCode)
    with ⟨openmp, problem, decorated, -⟩
  rw [decorations_of_quiet quiet] at decorated
  cases decorated

end Final

/-- A call tells the truth unless it is starved. -/
theorem symQuant_honest_iff (around : CallSurroundings Cell)
    (args : SymQuantArgs) (metadata : Option SymQuantMetadata)
    (code : ErrorCode) (c : Nat → Cell) :
    Honest around args c
        (aoclGemmS8s8s32of32SymQuant around args metadata code c) ↔
      ¬ Starved around args metadata := by
  have start : Quiet metadata c code (startState metadata code c) ∧
      Unheld (startState metadata code c) :=
    ⟨⟨rfl, rfl, rfl⟩, rfl, rfl⟩
  have triple : Triple
      (fun state => Quiet metadata c code state ∧ Unheld state)
      (symQuantBody around args metadata)
      (fun _ state => (¬ Starved around args metadata ∧
        Decorated around args c state) ∨ Left around args metadata c state)
      (fun state => (¬ Starved around args metadata ∧
        Decorated around args c state) ∨ Left around args metadata c state) :=
    (symQuantBody_triple around args metadata c code).weaken
      (fun _ holds => holds) (fun _ _ done => Or.inl done)
      (fun _ left => Or.inr left)
  have ends := triple.final start
  unfold aoclGemmS8s8s32of32SymQuant
  rcases ends with ⟨fed, decorated⟩ | ⟨starved, quiet⟩ | ⟨fed, error, quiet⟩
  · exact iff_of_true (honest_of_decorated decorated) fed
  · exact iff_of_false (not_honest_of_starved starved quiet)
      (not_not.mpr starved)
  · exact iff_of_true (honest_of_failed quiet) fed

/-- No room for the first buffer: success without a product. -/
theorem symQuant_starved_square :
    let around := { squareSurroundings with mallocA := none }
    let final := aoclGemmS8s8s32of32SymQuant around squareArgs
      (some (squareMetadata .f32)) (.failed .failure) fun _ => ()
    final.errorCode = some .success ∧ decorations final.log = [] ∧
      ¬ Honest around squareArgs (fun _ => ()) final := by
  refine ⟨rfl, rfl, ?_⟩
  intro honest
  rcases honest.succeeded rfl with ⟨openmp, problem, decorated, -⟩
  cases decorated

end AoclDlp.Quant.StatusHonesty
