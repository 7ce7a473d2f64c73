import AoclDlp.Runtime.Settings

/-!
# Precedence of the threading settings

When calls do not overlap, every read returns the first setting found in the
order thread-local record, library record, environment, OpenMP, core count.
The records are what the setter calls alone left behind; the library record
starts as the setting that initialisation took from the environment.  Reads
mutate the external-control flags that they consult, yet no read changes what
a later one returns.
-/

namespace AoclDlp.Runtime.Settings

open AoclDlp.Foundations.Transition
open AoclDlp.Threading.Factorization

/-! ## The packed word -/

@[simp]
theorem dlpUnpackWays_dlpPackWays (ic jc : BitVec 32) :
    dlpUnpackWays (dlpPackWays ic jc) = (ic, jc) := by
  unfold dlpUnpackWays dlpPackWays
  refine Prod.ext ?_ ?_
  · ext index bound
    simp
  · ext index bound
    have low : index < 64 := by omega
    have high : 32 + index < 64 := by omega
    simp [low, high, BitVec.getLsbD_eq_getElem bound]

theorem toInt_ofInt_way {way : Int} (lower : -1 ≤ way)
    (upper : way < 2 ^ 31) : (BitVec.ofInt 32 way).toInt = way := by
  rw [BitVec.toInt_ofInt]
  exact Int.bmod_eq_of_le (by omega) (by omega)

/-! ## Records of setter calls -/

/-- The counts that the setter calls of one level left behind. -/
structure Counts where
  numThreads : Int
  icWays : Int
  jcWays : Int
  deriving DecidableEq, Repr

namespace Counts

/-- No count is set. -/
def unset : Counts :=
  ⟨-1, -1, -1⟩

/-- Ways were set; they displace a thread count. -/
def ofWays (jc ic : Int) : Counts :=
  ⟨-1, clampUnset ic, clampUnset jc⟩

/-- A thread count was set; ways stay. -/
def withNumThreads (counts : Counts) (nThreads : Int) : Counts :=
  { counts with numThreads := clampUnset nThreads }

/-- The counts of a completed setting. -/
def ofRntm (rntm : DlpRntm) : Counts :=
  ⟨rntm.numThreads, rntm.icWays, rntm.jcWays⟩

/-- The setting that a record gives, if it gives one. -/
def setting (counts : Counts) : Option DlpRntm :=
  chooseSetting counts.icWays counts.jcWays counts.numThreads

end Counts

variable {Tid : Type}

/-- The records of all levels that calls can set. -/
structure Sources (Tid : Type) where
  library : Counts
  own : Tid → Counts

namespace Sources

/-- No setter was called. -/
def unset : Sources Tid :=
  ⟨.unset, fun _ => .unset⟩

/-- Initialisation enters the setting of the environment for the library. -/
def initial (config : Config) : Sources Tid :=
  ⟨match config.setting with
    | some rntm => .ofRntm rntm
    | none => .unset, fun _ => .unset⟩

/-- The first set source. -/
def active (config : Config) (maxThreads : Int) (sources : Sources Tid)
    (tid : Tid) : DlpRntm :=
  match (sources.own tid).setting with
  | some rntm => rntm
  | none =>
      match sources.library.setting with
      | some rntm => rntm
      | none =>
          match config.setting with
          | some rntm => rntm
          | none =>
              if maxThreads > 0 then ⟨maxThreads, -1, -1⟩
              else config.coreSetting

variable [DecidableEq Tid]

/-- The records after a call. -/
def after (sources : Sources Tid) (tid : Tid) : Call → Sources Tid
  | .rntmInitFromGlobal _ => sources
  | .setWaysLibrary jc ic => { sources with library := .ofWays jc ic }
  | .setNumThreadsLibrary nThreads =>
      { sources with library := sources.library.withNumThreads nThreads }
  | .setWaysLocal jc ic =>
      { sources with
        own := Function.update sources.own tid (.ofWays jc ic) }
  | .setNumThreadsLocal nThreads =>
      { sources with
        own := Function.update sources.own tid
          ((sources.own tid).withNumThreads nThreads) }

end Sources

/-! ## Sequential runs -/

/-- A call of one of the threads. -/
structure Issued (Tid : Type) where
  tid : Tid
  call : Call

/-- The ways fit 32 bits. -/
def Call.Legal : Call → Prop
  | .setWaysLibrary jc ic => jc < 2 ^ 31 ∧ ic < 2 ^ 31
  | .setWaysLocal jc ic => jc < 2 ^ 31 ∧ ic < 2 ^ 31
  | _ => True

/-- The ways of the environment fit 32 bits. -/
structure Config.Legal (config : Config) : Prop where
  ic : config.dlpIcNt < 2 ^ 31
  jc : config.dlpJcNt < 2 ^ 31

/-- A call that is run until it returns; no call performs more atomics. -/
def Issued.actions (issued : Issued Tid) : List (Action Tid) :=
  .begin issued.tid issued.call ::
    List.replicate 6 (.step issued.tid)

/-- What a read answers when the records are these. -/
def Sources.answer (config : Config) (sources : Sources Tid) (tid : Tid) :
    Call → List DlpRntm
  | .rntmInitFromGlobal reading =>
      [(adjustNested reading.omp
        (sources.active config reading.omp.maxThreads tid) false).rntm]
  | _ => []

variable [DecidableEq Tid]

/-- The state after calls that do not overlap. -/
def runCalls (config : Config) (state : State Tid)
    (calls : List (Issued Tid)) : State Tid :=
  Machine.runActions (act config) state (calls.flatMap Issued.actions)

/-- What the reads of a run returned, the latest first. -/
def returned (state : State Tid) : List DlpRntm :=
  state.history.returns.map fun read => read.active.rntm

/-- What the reads of a run have to return, the latest first. -/
def Sources.answers (config : Config) :
    Sources Tid → List (Issued Tid) → List DlpRntm
  | _, [] => []
  | sources, issued :: rest =>
      (sources.after issued.tid issued.call).answers config rest ++
        sources.answer config issued.tid issued.call

/-! ## The records and the atomics -/

theorem clampUnset_way {way : Int} (bound : way < 2 ^ 31) :
    (BitVec.ofInt 32 (clampUnset way)).toInt = clampUnset way := by
  unfold clampUnset
  split
  · exact toInt_ofInt_way (by omega) (by omega)
  · exact toInt_ofInt_way (by omega) bound

/-- The word holds the ways of the record. -/
def Counts.PackedIn (counts : Counts) (packed : BitVec 64) : Prop :=
  (dlpUnpackWays packed).1.toInt = counts.icWays ∧
    (dlpUnpackWays packed).2.toInt = counts.jcWays

theorem Counts.PackedIn.librarySetting {counts : Counts}
    {packed : BitVec 64} (holds : counts.PackedIn packed) :
    librarySetting packed counts.numThreads = counts.setting := by
  unfold Settings.librarySetting Counts.setting
  rw [holds.1, holds.2]

/-- The thread-local data are the record of the thread. -/
structure TlRntm.Records (tl : TlRntm) (counts : Counts) : Prop where
  numThreads : tl.numThreads = counts.numThreads
  icWays : tl.icWays = counts.icWays
  jcWays : tl.jcWays = counts.jcWays
  external : tl.extMtCtrVar = true → counts.setting = none
  pending : tl.pendingInit = true → counts.setting = none

theorem TlRntm.Records.setting {tl : TlRntm} {counts : Counts}
    (records : tl.Records counts) : tl.setting = counts.setting := by
  unfold TlRntm.setting
  split
  · unfold Counts.setting
    rw [records.numThreads, records.icWays, records.jcWays]
  next external =>
    exact (records.external (Bool.eq_true_of_not_eq_false external)).symm

/-- The library atomics hold the record of the library. -/
structure Shared.Records (config : Config) (shared : Shared)
    (counts : Counts) : Prop where
  ways : counts.PackedIn shared.libPackedWays
  numThreads : shared.libExtMtCtrVar = false →
    shared.libNumThreads = counts.numThreads
  external : shared.libExtMtCtrVar = true →
    counts.setting = none ∧ config.setting = none

/-- Between calls, the state is what the records say. -/
structure Agrees (config : Config) (state : State Tid)
    (sources : Sources Tid) : Prop where
  idle : ∀ tid, (state.thread tid).pc = .idle
  own : ∀ tid, (state.thread tid).tl.Records (sources.own tid)
  library : state.shared.Records config sources.library

/-! ## One call -/

/-- A thread performs a number of atomics while no other thread does. -/
def stepsOf (config : Config) (tid : Tid) (count : Nat) (state : State Tid) :
    State Tid :=
  Machine.runActions (act config) state (List.replicate count (.step tid))

theorem stepsOf_succ (config : Config) (tid : Tid) (count : Nat)
    (state : State Tid) :
    stepsOf config tid (count + 1) state =
      stepsOf config tid count (stepCall config state tid) :=
  rfl

/-- A state in which one thread is singled out. -/
def running (threads : Tid → Thread) (tid : Tid) (shared : Shared)
    (thread : Thread) (history : History Tid) : State Tid :=
  ⟨shared, Function.update threads tid thread, history⟩

theorem stepCall_running (config : Config) (threads : Tid → Thread)
    (tid : Tid) (shared : Shared) (thread : Thread) (history : History Tid) :
    stepCall config (running threads tid shared thread history) tid =
      running threads tid (stepThread config shared thread).shared
        (stepThread config shared thread).thread
        (history.record tid (stepThread config shared thread).event) := by
  simp [stepCall, running]

theorem stepsOf_idle (config : Config) (threads : Tid → Thread) (tid : Tid)
    (shared : Shared) (tl : TlRntm) (history : History Tid) (count : Nat) :
    stepsOf config tid count
        (running threads tid shared ⟨tl, .idle⟩ history) =
      running threads tid shared ⟨tl, .idle⟩ history := by
  induction count with
  | zero => rfl
  | succ count ih =>
      rw [stepsOf_succ, stepCall_running]
      exact ih

/-- The thread is idle again, and the state is what the records say. -/
structure Completed (config : Config) (threads : Tid → Thread) (tid : Tid)
    (library own : Counts) (answer : List DlpRntm) (before : History Tid)
    (state : State Tid) : Prop where
  form : ∃ shared tl history,
    state = running threads tid shared ⟨tl, .idle⟩ history ∧
      shared.Records config library ∧ tl.Records own ∧
      history.returns.map (fun read => read.active.rntm) =
        answer ++ before.returns.map fun read => read.active.rntm

variable {config : Config} {threads : Tid → Thread} {tid : Tid}
  {library own : Counts} {shared : Shared} {tl : TlRntm}
  {history : History Tid} {reading : Reading}

omit [DecidableEq Tid] in
theorem adjustNested_rntm (omp : OmpView) (rntm : DlpRntm)
    (external : Bool) :
    (adjustNested omp rntm external).rntm =
      (adjustNested omp rntm false).rntm := by
  unfold adjustNested
  split <;> rfl

theorem completed_returnRead (libraryHeld : shared.Records config library)
    (ownHeld : tl.Records own) (rntm : DlpRntm) (external : Bool)
    (count : Nat) :
    Completed config threads tid library own
      [(adjustNested reading.omp rntm false).rntm] history
      (stepsOf config tid count
        (running threads tid shared ⟨tl, .idle⟩
          (history.record tid (.readReturned reading
            (adjustNested reading.omp rntm external))))) := by
  rw [stepsOf_idle]
  refine ⟨shared, tl, _, rfl, libraryHeld, ownHeld, ?_⟩
  rw [← adjustNested_rntm reading.omp rntm external]
  rfl

/-- What the first set source is, level by level. -/
def answerOf (config : Config) (library own : Counts) (maxThreads : Int) :
    DlpRntm :=
  Sources.active config maxThreads ⟨library, fun _ : Unit => own⟩ ()

theorem completed_fallThrough (libraryHeld : shared.Records config library)
    (ownHeld : tl.Records own) (noOwn : own.setting = none)
    (noLibrary : library.setting = none) (noEnv : config.setting = none)
    (count : Nat) :
    Completed config threads tid library own
      [(adjustNested reading.omp
        (answerOf config library own reading.omp.maxThreads) false).rntm]
      history
      (stepsOf config tid (count + 1)
        (running threads tid
          (fallThrough config shared tl reading).shared
          (fallThrough config shared tl reading).thread
          (history.record tid
            (fallThrough config shared tl reading).event))) := by
  unfold answerOf Sources.active fallThrough
  rw [noOwn, noLibrary, noEnv]
  dsimp only
  by_cases omp : reading.omp.maxThreads > 0
  · have flagged : Shared.Records config
        { shared with libExtMtCtrVar := true } library :=
      ⟨libraryHeld.ways, nofun, fun _ => ⟨noLibrary, noEnv⟩⟩
    have ownFlagged : TlRntm.Records
        { tl with extMtCtrVar := true } own :=
      ⟨ownHeld.numThreads, ownHeld.icWays, ownHeld.jcWays,
        fun _ => noOwn, ownHeld.pending⟩
    rw [if_pos omp, if_pos omp, stepsOf_succ, stepCall_running]
    exact completed_returnRead flagged ownFlagged _ true count
  · rw [if_neg omp, if_neg omp]
    exact completed_returnRead libraryHeld ownHeld _ false (count + 1)

theorem completed_loadExtAgain (libraryHeld : shared.Records config library)
    (ownHeld : tl.Records own) (noOwn : own.setting = none)
    (noLibrary : library.setting = none) (count : Nat) :
    Completed config threads tid library own
      [(adjustNested reading.omp
        (answerOf config library own reading.omp.maxThreads) false).rntm]
      history
      (stepsOf config tid (count + 2)
        (running threads tid shared ⟨tl, .loadExtAgain reading⟩
          history)) := by
  rw [stepsOf_succ, stepCall_running]
  dsimp only [stepThread]
  by_cases controlled : shared.libExtMtCtrVar = false
  · rw [if_pos controlled]
    cases setting : config.setting with
    | none =>
        exact completed_fallThrough libraryHeld ownHeld noOwn noLibrary
          setting count
    | some rntm =>
        have found : answerOf config library own reading.omp.maxThreads =
            rntm := by
          unfold answerOf Sources.active
          rw [noOwn, noLibrary, setting]
        rw [found]
        exact completed_returnRead libraryHeld ownHeld _ false (count + 1)
  · rw [if_neg controlled]
    have noEnv := (libraryHeld.external
      (Bool.eq_true_of_not_eq_false controlled)).2
    exact completed_fallThrough libraryHeld ownHeld noOwn noLibrary noEnv
      count

/-- The steps of a read answer the first set source. -/
theorem completed_loadExt (reading : Reading)
    (libraryHeld : shared.Records config library)
    (ownHeld : tl.Records own) (count : Nat) :
    Completed config threads tid library own
      [(adjustNested reading.omp
        (answerOf config library own reading.omp.maxThreads) false).rntm]
      history
      (stepsOf config tid (count + 5)
        (running threads tid shared ⟨tl, .loadExt reading⟩ history)) := by
  rw [stepsOf_succ, stepCall_running]
  dsimp only [stepThread]
  rw [ownHeld.setting]
  cases setting : own.setting with
  | some rntm =>
      have found : answerOf config library own reading.omp.maxThreads =
          rntm := by
        unfold answerOf Sources.active
        rw [setting]
      rw [found]
      exact completed_returnRead libraryHeld ownHeld _ false (count + 4)
  | none =>
      dsimp only
      by_cases controlled : shared.libExtMtCtrVar = false
      · rw [if_pos controlled]
        dsimp only
        rw [stepsOf_succ, stepCall_running]
        dsimp only [stepThread]
        rw [stepsOf_succ, stepCall_running]
        dsimp only [stepThread]
        rw [libraryHeld.numThreads controlled,
          libraryHeld.ways.librarySetting]
        cases librarySet : library.setting with
        | none =>
            exact completed_loadExtAgain libraryHeld ownHeld setting
              librarySet count
        | some rntm =>
            have found : answerOf config library own
                reading.omp.maxThreads = rntm := by
              unfold answerOf Sources.active
              rw [setting, librarySet]
            rw [found]
            exact completed_returnRead libraryHeld ownHeld _ false
              (count + 2)
      · rw [if_neg controlled]
        have noLibrary := (libraryHeld.external
          (Bool.eq_true_of_not_eq_false controlled)).1
        exact completed_loadExtAgain libraryHeld ownHeld setting noLibrary
          (count + 2)

theorem completed_idle (libraryHeld : shared.Records config library)
    (ownHeld : tl.Records own) {before : History Tid}
    (kept : history.returns = before.returns) (count : Nat) :
    Completed config threads tid library own [] before
      (stepsOf config tid count
        (running threads tid shared ⟨tl, .idle⟩ history)) := by
  rw [stepsOf_idle]
  refine ⟨shared, tl, history, rfl, libraryHeld, ownHeld, ?_⟩
  rw [kept]
  rfl

theorem packedIn_clamped {ic jc : Int} (icBound : ic < 2 ^ 31)
    (jcBound : jc < 2 ^ 31) :
    (Counts.ofWays jc ic).PackedIn
      (dlpPackWays (.ofInt 32 (clampUnset ic))
        (.ofInt 32 (clampUnset jc))) := by
  unfold Counts.PackedIn
  rw [dlpUnpackWays_dlpPackWays]
  exact ⟨clampUnset_way icBound, clampUnset_way jcBound⟩

/-- The atomics of a call whose thread-local data are initialised. -/
theorem completed_enter {sources : Sources Tid} {state : State Tid}
    {call : Call} (legal : call.Legal)
    (libraryHeld : shared.Records config sources.library)
    (ownHeld : tl.Records (sources.own tid))
    (initialised : tl.pendingInit = false) (count : Nat) :
    Completed config threads tid (sources.after tid call).library
      ((sources.after tid call).own tid) (sources.answer config tid call)
      history
      (stepsOf config tid (count + 5)
        (running threads tid shared ⟨tl, (annotate state tid call).enter⟩
          (history.begin tid (annotate state tid call)))) := by
  have late : tl.pendingInit = true → False := by
    intro pending
    exact Bool.noConfusion (initialised.symm.trans pending)
  cases call with
  | rntmInitFromGlobal reading =>
      exact completed_loadExt
        ⟨reading.omp, expectation state tid reading.omp,
          state.history.setterStarts⟩ libraryHeld ownHeld count
  | setWaysLibrary jc ic =>
      have stored : Shared.Records config
          ⟨dlpPackWays (.ofInt 32 (clampUnset ic))
            (.ofInt 32 (clampUnset jc)), -1, false⟩ (.ofWays jc ic) :=
        ⟨packedIn_clamped legal.2 legal.1, fun _ => rfl, nofun⟩
      iterate 3 rw [stepsOf_succ, stepCall_running]
      refine completed_idle stored ownHeld ?_ (count + 2)
      rfl
  | setNumThreadsLibrary nThreads =>
      have stored : Shared.Records config
          ⟨shared.libPackedWays, clampUnset nThreads, false⟩
          (sources.library.withNumThreads nThreads) :=
        ⟨libraryHeld.ways, fun _ => rfl, nofun⟩
      iterate 2 rw [stepsOf_succ, stepCall_running]
      refine completed_idle stored ownHeld ?_ (count + 3)
      rfl
  | setWaysLocal jc ic =>
      have stored : TlRntm.Records
          { tl with
            icWays := clampUnset ic
            jcWays := clampUnset jc
            numThreads := -1
            extMtCtrVar := false } (.ofWays jc ic) :=
        ⟨rfl, rfl, rfl, nofun, fun pending => (late pending).elim⟩
      rw [stepsOf_succ, stepCall_running]
      dsimp only [Sources.after]
      rw [Function.update_self]
      refine completed_idle libraryHeld stored ?_ (count + 4)
      rfl
  | setNumThreadsLocal nThreads =>
      have stored : TlRntm.Records
          { tl with
            numThreads := clampUnset nThreads
            extMtCtrVar := false }
          ((sources.own tid).withNumThreads nThreads) :=
        ⟨rfl, ownHeld.icWays, ownHeld.jcWays, nofun,
          fun pending => (late pending).elim⟩
      rw [stepsOf_succ, stepCall_running]
      dsimp only [Sources.after]
      rw [Function.update_self]
      refine completed_idle libraryHeld stored ?_ (count + 4)
      rfl

variable {state : State Tid} {sources : Sources Tid}

/-- The thread-local data are initialised, then the call runs. -/
theorem Agrees.begin (agrees : Agrees config state sources) (tid : Tid)
    (call : Call) :
    ∃ tl count, tl.Records (sources.own tid) ∧ tl.pendingInit = false ∧
      stepsOf config tid 6 (beginCall state tid call) =
        stepsOf config tid (count + 5)
          (running state.thread tid state.shared
            ⟨tl, (annotate state tid call).enter⟩
            (state.history.begin tid (annotate state tid call))) := by
  have own := agrees.own tid
  have started : beginCall state tid call =
      running state.thread tid state.shared
        ⟨(state.thread tid).tl,
          if (state.thread tid).tl.pendingInit then
            .tlInit (annotate state tid call)
          else (annotate state tid call).enter⟩
        (state.history.begin tid (annotate state tid call)) := by
    unfold beginCall
    rw [agrees.idle tid]
    rfl
  rw [started]
  cases pending : (state.thread tid).tl.pendingInit with
  | false =>
      refine ⟨(state.thread tid).tl, 1, own, pending, ?_⟩
      rfl
  | true =>
      refine ⟨{ (state.thread tid).tl with
          extMtCtrVar := state.shared.libExtMtCtrVar
          pendingInit := false }, 0, ?_, rfl, ?_⟩
      · exact ⟨own.numThreads, own.icWays, own.jcWays,
          fun _ => own.pending pending, nofun⟩
      · rw [if_pos rfl, stepsOf_succ, stepCall_running]
        rfl

theorem Completed.agrees {answer : List DlpRntm} {next : State Tid}
    (completed : Completed config state.thread tid library own answer
      state.history next)
    (agrees : Agrees config state sources) :
    Agrees config next ⟨library, Function.update sources.own tid own⟩ ∧
      returned next = answer ++ returned state := by
  rcases completed.form with
    ⟨shared, tl, history, rfl, libraryHeld, ownHeld, answers⟩
  refine ⟨⟨?_, ?_, libraryHeld⟩, answers⟩
  · intro other
    by_cases same : other = tid
    · subst other
      simp [running]
    · simpa [running, same] using agrees.idle other
  · intro other
    by_cases same : other = tid
    · subst other
      simpa [running] using ownHeld
    · simpa [running, same] using agrees.own other

theorem Sources.after_eq (sources : Sources Tid) (tid : Tid) (call : Call) :
    sources.after tid call =
      ⟨(sources.after tid call).library,
        Function.update sources.own tid
          ((sources.after tid call).own tid)⟩ := by
  cases call <;> simp [Sources.after]

/-- A whole call answers from the records and updates them. -/
theorem Agrees.call (agrees : Agrees config state sources)
    {issued : Issued Tid}
    (legal : issued.call.Legal) :
    let next := Machine.runActions (act config) state issued.actions
    Agrees config next (sources.after issued.tid issued.call) ∧
      returned next =
        sources.answer config issued.tid issued.call ++ returned state := by
  rcases agrees.begin issued.tid issued.call with
    ⟨tl, count, ownHeld, initialised, runs⟩
  have completed : Completed config state.thread issued.tid
      (sources.after issued.tid issued.call).library
      ((sources.after issued.tid issued.call).own issued.tid)
      (sources.answer config issued.tid issued.call) state.history
      (stepsOf config issued.tid 6
        (beginCall state issued.tid issued.call)) := by
    rw [runs]
    exact completed_enter legal agrees.library ownHeld initialised count
  rw [sources.after_eq issued.tid issued.call]
  exact completed.agrees agrees

/-! ## Runs of calls -/

theorem runCalls_cons (config : Config) (state : State Tid)
    (issued : Issued Tid) (rest : List (Issued Tid)) :
    runCalls config state (issued :: rest) =
      runCalls config
        (Machine.runActions (act config) state issued.actions) rest := by
  unfold runCalls Machine.runActions
  rw [List.flatMap_cons, List.foldl_append]

/-- The reads of a run answer from the records that the setters left. -/
theorem Agrees.run (agrees : Agrees config state sources)
    {calls : List (Issued Tid)}
    (legal : ∀ issued ∈ calls, issued.call.Legal) :
    returned (runCalls config state calls) =
      sources.answers config calls ++ returned state := by
  induction calls generalizing state sources with
  | nil => rfl
  | cons issued rest ih =>
      rcases agrees.call (legal issued List.mem_cons_self) with
        ⟨next, answered⟩
      rw [runCalls_cons, ih next fun later member =>
        legal later (List.mem_cons_of_mem _ member), answered,
        Sources.answers, List.append_assoc]

theorem chooseSetting_counts {ic jc nt : Int} {rntm : DlpRntm}
    (chosen : chooseSetting ic jc nt = some rntm) :
    (rntm.numThreads = -1 ∧ 1 ≤ rntm.icWays ∧ 1 ≤ rntm.jcWays) ∨
      (0 < rntm.numThreads ∧ rntm.icWays = -1 ∧ rntm.jcWays = -1) := by
  unfold chooseSetting at chosen
  split at chosen
  · cases chosen
    left
    refine ⟨rfl, ?_, ?_⟩ <;> dsimp only <;> split <;> omega
  · split at chosen
    next positive =>
      cases chosen
      exact Or.inr ⟨positive, rfl, rfl⟩
    next => cases chosen

theorem chooseSetting_fits {ic jc nt : Int} {rntm : DlpRntm}
    (chosen : chooseSetting ic jc nt = some rntm)
    (icBound : ic < 2 ^ 31) (jcBound : jc < 2 ^ 31) :
    rntm.icWays < 2 ^ 31 ∧ rntm.jcWays < 2 ^ 31 := by
  unfold chooseSetting at chosen
  split at chosen
  · cases chosen
    refine ⟨?_, ?_⟩ <;> dsimp only <;> split <;> omega
  · split at chosen
    · cases chosen
      have small : (-1 : Int) < 2 ^ 31 := by decide
      exact ⟨small, small⟩
    · cases chosen

omit [DecidableEq Tid] in
/-- Initialisation leaves the records that it documents. -/
theorem agrees_initial {config : Config} (legal : config.Legal)
    (omp : OmpView) :
    Agrees config (initial config omp : State Tid)
      (Sources.initial config) := by
  refine ⟨fun _ => rfl, ?_, ?_⟩
  · intro tid
    exact ⟨rfl, rfl, rfl, fun _ => rfl, fun _ => rfl⟩
  · change Shared.Records config (dlpInitThreading config omp)
      (Sources.initial config : Sources Tid).library
    unfold dlpInitThreading Sources.initial
    change Shared.Records config
      (match config.setting with | some _ => _ | none => _)
      (match config.setting with | some _ => _ | none => _)
    cases setting : config.setting with
    | none =>
        refine ⟨?_, nofun, fun _ => ⟨rfl, setting⟩⟩
        unfold Counts.PackedIn
        rw [dlpUnpackWays_dlpPackWays]
        exact ⟨rfl, rfl⟩
    | some rntm =>
        have fits := chooseSetting_fits setting legal.ic legal.jc
        have signs := chooseSetting_counts setting
        refine ⟨?_, fun _ => rfl, nofun⟩
        unfold Counts.PackedIn
        rw [dlpUnpackWays_dlpPackWays]
        exact ⟨toInt_ofInt_way (by omega) fits.1,
          toInt_ofInt_way (by omega) fits.2⟩

/-! ## The answers -/

/-- A thread count without ways, or ways without a thread count. -/
def OneForm (rntm : DlpRntm) : Prop :=
  (0 < rntm.numThreads ∧ rntm.icWays = -1 ∧ rntm.jcWays = -1) ∨
    (rntm.numThreads = -1 ∧ 1 ≤ rntm.icWays ∧ 1 ≤ rntm.jcWays)

theorem chooseSetting_oneForm {ic jc nt : Int} {rntm : DlpRntm}
    (chosen : chooseSetting ic jc nt = some rntm) : OneForm rntm :=
  (chooseSetting_counts chosen).symm

theorem coreSetting_oneForm (config : Config) :
    OneForm config.coreSetting := by
  refine Or.inl ⟨?_, rfl, rfl⟩
  unfold Config.coreSetting
  dsimp only
  split <;> omega

omit [DecidableEq Tid] in
theorem Sources.active_oneForm (config : Config) (maxThreads : Int)
    (sources : Sources Tid) (tid : Tid) :
    OneForm (sources.active config maxThreads tid) := by
  unfold Sources.active
  split
  next own => exact chooseSetting_oneForm own
  next =>
    split
    next library => exact chooseSetting_oneForm library
    next =>
      split
      next env => exact chooseSetting_oneForm env
      next =>
        split
        next positive => exact Or.inl ⟨positive, rfl, rfl⟩
        next => exact coreSetting_oneForm config

theorem adjustNested_oneForm (omp : OmpView) {rntm : DlpRntm}
    (form : OneForm rntm) : OneForm (adjustNested omp rntm false).rntm := by
  unfold adjustNested
  split
  · exact Or.inr ⟨rfl, le_rfl, le_rfl⟩
  · exact form

omit [DecidableEq Tid] in
theorem Sources.answer_oneForm (sources : Sources Tid) (tid : Tid)
    (call : Call) :
    ∀ rntm ∈ sources.answer config tid call, OneForm rntm := by
  intro rntm member
  cases call with
  | rntmInitFromGlobal reading =>
      cases List.mem_singleton.mp member
      exact adjustNested_oneForm _ (sources.active_oneForm _ _ _)
  | _ => cases member

theorem Sources.answers_oneForm (sources : Sources Tid)
    (calls : List (Issued Tid)) :
    ∀ rntm ∈ sources.answers config calls, OneForm rntm := by
  induction calls generalizing sources with
  | nil => nofun
  | cons issued rest ih =>
      intro rntm member
      rcases List.mem_append.mp member with later | now
      · exact ih _ rntm later
      · exact sources.answer_oneForm _ _ rntm now

/-- The records after a run of calls. -/
def Sources.afterAll (sources : Sources Tid) (calls : List (Issued Tid)) :
    Sources Tid :=
  calls.foldl (fun current issued => current.after issued.tid issued.call)
    sources

theorem Sources.answers_append (sources : Sources Tid)
    (before later : List (Issued Tid)) :
    sources.answers config (before ++ later) =
      (sources.afterAll before).answers config later ++
        sources.answers config before := by
  induction before generalizing sources with
  | nil => exact (List.append_nil _).symm
  | cons issued rest ih =>
      rw [List.cons_append, Sources.answers, ih, List.append_assoc]
      rfl

/-- Every read of a sequential run, answered from the setter calls. -/
theorem returned_runCalls {config : Config} (legal : config.Legal)
    (omp : OmpView) {calls : List (Issued Tid)}
    (legalCalls : ∀ issued ∈ calls, issued.call.Legal) :
    returned (runCalls config (initial config omp) calls) =
      (Sources.initial config).answers config calls := by
  rw [(agrees_initial legal omp).run legalCalls]
  exact List.append_nil _

/--
In a run of calls that do not overlap, every read answers the first set
source, in one of the two forms, and a read that is inserted anywhere adds its
own answer and changes no other.
-/
theorem settings_precedence (config : Config) (env : config.Legal)
    (omp : OmpView) (calls : List (Issued Tid))
    (legal : ∀ issued ∈ calls, issued.call.Legal) :
    returned (runCalls config (initial config omp) calls) =
        (Sources.initial config).answers config calls ∧
      (∀ rntm ∈ returned (runCalls config (initial config omp) calls),
        OneForm rntm) ∧
      ∀ before later reader reading,
        calls = before ++ ⟨reader, .rntmInitFromGlobal reading⟩ :: later →
        ∃ laterAnswers answer,
          returned (runCalls config (initial config omp) calls) =
              laterAnswers ++ answer ::
                returned (runCalls config (initial config omp) before) ∧
            returned (runCalls config (initial config omp)
                (before ++ later)) =
              laterAnswers ++
                returned (runCalls config (initial config omp) before) := by
  have answered := returned_runCalls env omp legal
  refine ⟨answered, ?_, ?_⟩
  · rw [answered]
    exact Sources.answers_oneForm _ _
  · rintro before later reader reading rfl
    have legalBefore : ∀ issued ∈ before,
        issued.call.Legal := fun issued member =>
      legal issued (List.mem_append_left _ member)
    have legalLater : ∀ issued ∈ later,
        issued.call.Legal := fun issued member =>
      legal issued (List.mem_append_right _ (List.mem_cons_of_mem _ member))
    have legalBoth : ∀ issued ∈ before ++ later,
        issued.call.Legal := fun issued member =>
      (List.mem_append.mp member).elim (legalBefore issued)
        (legalLater issued)
    let records := (Sources.initial config).afterAll before
    refine ⟨records.answers config later,
      (adjustNested reading.omp
        (records.active config reading.omp.maxThreads reader) false).rntm,
      ?_, ?_⟩
    · rw [answered, returned_runCalls env omp legalBefore,
        Sources.answers_append, Sources.answers, List.append_assoc]
      rfl
    · rw [returned_runCalls env omp legalBoth,
        returned_runCalls env omp legalBefore, Sources.answers_append]

/-- The environment sets two threads for the IC loop. -/
def icConfig : Config :=
  ⟨2, -1, -1, 8⟩

/-- A read from a region that OpenMP lets create a team, or not. -/
def readFrom (team : Bool) : Call :=
  .rntmInitFromGlobal ⟨⟨8, team⟩, none, 0⟩

/-- Two threads set counts and ways; both read. -/
def mixedCalls : List (Issued Bool) :=
  [⟨false, .setNumThreadsLibrary 6⟩, ⟨true, readFrom true⟩,
    ⟨true, .setWaysLocal 3 0⟩, ⟨true, readFrom true⟩,
    ⟨false, readFrom true⟩]

theorem settings_precedence_mixed :
    icConfig.Legal ∧
      (∀ issued ∈ mixedCalls, issued.call.Legal) ∧
      returned (runCalls icConfig (initial icConfig ⟨8, true⟩) mixedCalls) =
        [⟨-1, 1, 2⟩, ⟨-1, 3, 1⟩, ⟨-1, 1, 2⟩] := by
  have env : icConfig.Legal := ⟨by decide, by decide⟩
  have legal : ∀ issued ∈ mixedCalls, issued.call.Legal := by
    simp [mixedCalls, Call.Legal, readFrom]
  refine ⟨env, legal, ?_⟩
  rw [(settings_precedence icConfig env ⟨8, true⟩ mixedCalls legal).1]
  decide

/--
Initialisation takes the ways of the environment for the library, so a
library thread count that is set later has no effect; and a read in a nested
region answers one way, whatever source is set.
-/
theorem library_count_displaced :
    let set : List (Issued Unit) := [⟨(), .setNumThreadsLibrary 8⟩]
    (Sources.unset.afterAll set).active icConfig 8 () = ⟨8, -1, -1⟩ ∧
      returned (runCalls icConfig (initial icConfig ⟨8, true⟩)
        (set ++ [⟨(), readFrom true⟩])) = [⟨-1, 1, 2⟩] ∧
      (Sources.unset.afterAll set).active ⟨-1, -1, -1, 8⟩ 8 () =
        ⟨8, -1, -1⟩ ∧
      returned (runCalls ⟨-1, -1, -1, 8⟩
        (initial ⟨-1, -1, -1, 8⟩ ⟨8, true⟩)
        (set ++ [⟨(), readFrom false⟩])) = [⟨-1, 1, 1⟩] := by
  decide

end AoclDlp.Runtime.Settings
