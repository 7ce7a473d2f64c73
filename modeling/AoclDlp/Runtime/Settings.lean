import AoclDlp.Foundations.Transition
import AoclDlp.Threading.Factorization

/-!
# Threading settings of the runtime

`dlp_runtime.c` keeps the library-wide threading settings in three atomics:
the packed ways, the thread count, and the flag that hands control to OpenMP.
Setters and readers run concurrently on any number of threads, and every
atomic load or store is one step.  What a thread does between two atomics
touches only its own data and is part of the step before.

The build has OpenMP enabled and initialisation has taken place.
-/

namespace AoclDlp.Runtime.Settings

open AoclDlp.Foundations.Transition
open AoclDlp.Threading.Factorization

/-! ## Shared variables and their encoding -/

/-- `dlp_pack_ways`: `[63:32] = jc`, `[31:0] = ic`. -/
def dlpPackWays (ic jc : BitVec 32) : BitVec 64 :=
  (jc.setWidth 64 <<< 32) ||| ic.setWidth 64

/-- `dlp_unpack_ways`: the pair `(ic, jc)`. -/
def dlpUnpackWays (packed : BitVec 64) : BitVec 32 × BitVec 32 :=
  (packed.setWidth 32, (packed >>> 32).setWidth 32)

/-- The library atomics. -/
structure Shared where
  libPackedWays : BitVec 64
  libNumThreads : Int
  libExtMtCtrVar : Bool
  deriving DecidableEq, Repr

/-- The environment variables and the core count, as the runtime reads them. -/
structure Config where
  dlpIcNt : Int
  dlpJcNt : Int
  dlpNumThreads : Int
  numCores : Int
  deriving DecidableEq, Repr

/-- What OpenMP answers during one call. -/
structure OmpView where
  maxThreads : Int
  canCreateParallelTeam : Bool
  deriving DecidableEq, Repr

/-- The stores of a clamped setter: nonpositive counts mean unset. -/
def clampUnset (count : Int) : Int :=
  if count ≤ 0 then -1 else count

/--
One level of the priority order: positive ways win and are completed with
ones, then a positive thread count, else the level is empty.
-/
def chooseSetting (ic jc nt : Int) : Option DlpRntm :=
  if jc > 0 ∨ ic > 0 then
    some ⟨-1, if jc ≤ 0 then 1 else jc, if ic ≤ 0 then 1 else ic⟩
  else if nt > 0 then some ⟨nt, -1, -1⟩
  else none

/-- The setting that the library ways and a loaded thread count give. -/
def librarySetting (packed : BitVec 64) (nt : Int) : Option DlpRntm :=
  chooseSetting (dlpUnpackWays packed).1.toInt
    (dlpUnpackWays packed).2.toInt nt

/-- `dlp_init_threading`. -/
def dlpInitThreading (config : Config) (omp : OmpView) : Shared :=
  match chooseSetting config.dlpIcNt config.dlpJcNt
      config.dlpNumThreads with
  | some rntm =>
      ⟨dlpPackWays (.ofInt 32 rntm.icWays) (.ofInt 32 rntm.jcWays),
        rntm.numThreads, false⟩
  | none =>
      ⟨dlpPackWays (.ofInt 32 (-1)) (.ofInt 32 (-1)),
        if omp.canCreateParallelTeam then omp.maxThreads else 1, true⟩

/-! ## Threads -/

/-- `dlp_tl_rntm` and `dlp_init_tl_rntm`. -/
structure TlRntm where
  numThreads : Int
  icWays : Int
  jcWays : Int
  extMtCtrVar : Bool
  pendingInit : Bool
  deriving DecidableEq, Repr

/-- `DLP_CLASSIC_RNTM_INITIALIZER` of a thread that has not called yet. -/
def TlRntm.initializer : TlRntm :=
  ⟨-1, -1, -1, true, true⟩

/-- The thread has no setting of its own. -/
def TlRntm.Unset (tl : TlRntm) : Prop :=
  tl.numThreads ≤ 0 ∧ tl.icWays ≤ 0 ∧ tl.jcWays ≤ 0

instance (tl : TlRntm) : Decidable tl.Unset :=
  inferInstanceAs (Decidable (_ ∧ _ ∧ _))

/--
A call of `dlp_rntm_init_from_global`.  The last two fields are history: the
thread count that the call has to return, and the number of setter calls that
had started when it began.
-/
structure Reading where
  omp : OmpView
  expects : Option Int
  startedAt : Nat
  deriving DecidableEq, Repr

/-- The calls of the runtime interface. -/
inductive Call where
  | rntmInitFromGlobal (reading : Reading)
  | setWaysLibrary (jc ic : Int)
  | setNumThreadsLibrary (nThreads : Int)
  | setWaysLocal (jc ic : Int)
  | setNumThreadsLocal (nThreads : Int)
  deriving DecidableEq, Repr

/-- The atomic that a thread performs next. -/
inductive Pc where
  | idle
  | tlInit (call : Call)
  | storeWays (packed : BitVec 64)
  | storeWaysNt
  | storeWaysExt
  | storeNt (nThreads : Int)
  | storeNtExt (nThreads : Int)
  | setLocal (tl : TlRntm → TlRntm)
  | loadExt (reading : Reading)
  | loadNt (reading : Reading)
  | loadWays (reading : Reading) (nt : Int)
  | loadExtAgain (reading : Reading)
  | storeExt (reading : Reading)

/-- A thread of the program. -/
structure Thread where
  tl : TlRntm
  pc : Pc

/-- The first step of a call once the thread-local data is initialised. -/
def Call.enter : Call → Pc
  | .rntmInitFromGlobal reading => .loadExt reading
  | .setWaysLibrary jc ic =>
      .storeWays (dlpPackWays (.ofInt 32 (clampUnset ic))
        (.ofInt 32 (clampUnset jc)))
  | .setNumThreadsLibrary nThreads => .storeNt (clampUnset nThreads)
  | .setWaysLocal jc ic =>
      .setLocal fun tl =>
        { tl with
          icWays := clampUnset ic
          jcWays := clampUnset jc
          numThreads := -1
          extMtCtrVar := false }
  | .setNumThreadsLocal nThreads =>
      .setLocal fun tl =>
        { tl with
          numThreads := clampUnset nThreads
          extMtCtrVar := false }

/-- The outcome of a read. -/
structure ActiveRntm where
  rntm : DlpRntm
  extMtCtrVar : Bool
  deriving DecidableEq, Repr

/-- The last adjustment of a read: no team inside a nested region. -/
def adjustNested (omp : OmpView) (act : DlpRntm) (extMtCtrVar : Bool) :
    ActiveRntm :=
  if (act.numThreads > 0 ∨ act.icWays > 0 ∨ act.jcWays > 0) ∧
      omp.canCreateParallelTeam = false then
    ⟨⟨-1, 1, 1⟩, extMtCtrVar⟩
  else ⟨act, extMtCtrVar⟩

/-- The thread-local level of the priority order. -/
def TlRntm.setting (tl : TlRntm) : Option DlpRntm :=
  if tl.extMtCtrVar = false then
    chooseSetting tl.icWays tl.jcWays tl.numThreads
  else none

/-- The environment level of the priority order. -/
def Config.setting (config : Config) : Option DlpRntm :=
  chooseSetting config.dlpIcNt config.dlpJcNt config.dlpNumThreads

/-- The system-core fallback. -/
def Config.coreSetting (config : Config) : DlpRntm :=
  ⟨if config.numCores > 0 then config.numCores else 1, -1, -1⟩

/-- What a step reports to the history. -/
inductive Event where
  | silent
  | waysReturned
  | numThreadsReturned (nThreads : Int)
  | readReturned (reading : Reading) (active : ActiveRntm)
  deriving DecidableEq, Repr

/-- The shared variables, the thread and the event after a step. -/
structure Effect where
  shared : Shared
  thread : Thread
  event : Event

/-- A read returns. -/
def returnRead (shared : Shared) (tl : TlRntm) (reading : Reading)
    (act : DlpRntm) (extMtCtrVar : Bool) : Effect :=
  ⟨shared, ⟨tl, .idle⟩,
    .readReturned reading (adjustNested reading.omp act extMtCtrVar)⟩

/-- The OpenMP and core levels of a read whose earlier levels are empty. -/
def fallThrough (config : Config) (shared : Shared) (tl : TlRntm)
    (reading : Reading) : Effect :=
  if reading.omp.maxThreads > 0 then
    ⟨shared, ⟨tl, .storeExt reading⟩, .silent⟩
  else returnRead shared tl reading config.coreSetting false

/-- One atomic of one thread, with the private work up to the next one. -/
def stepThread (config : Config) (shared : Shared) (thread : Thread) :
    Effect :=
  match thread.pc with
  | .idle => ⟨shared, thread, .silent⟩
  | .tlInit call =>
      ⟨shared,
        ⟨{ thread.tl with
            extMtCtrVar := shared.libExtMtCtrVar
            pendingInit := false }, call.enter⟩, .silent⟩
  | .storeWays packed =>
      ⟨{ shared with libPackedWays := packed }, ⟨thread.tl, .storeWaysNt⟩,
        .silent⟩
  | .storeWaysNt =>
      ⟨{ shared with libNumThreads := -1 }, ⟨thread.tl, .storeWaysExt⟩,
        .silent⟩
  | .storeWaysExt =>
      ⟨{ shared with libExtMtCtrVar := false }, ⟨thread.tl, .idle⟩,
        .waysReturned⟩
  | .storeNt nThreads =>
      ⟨{ shared with libNumThreads := nThreads },
        ⟨thread.tl, .storeNtExt nThreads⟩, .silent⟩
  | .storeNtExt nThreads =>
      ⟨{ shared with libExtMtCtrVar := false }, ⟨thread.tl, .idle⟩,
        .numThreadsReturned nThreads⟩
  | .setLocal update => ⟨shared, ⟨update thread.tl, .idle⟩, .silent⟩
  | .loadExt reading =>
      match thread.tl.setting with
      | some act => returnRead shared thread.tl reading act false
      | none =>
          if shared.libExtMtCtrVar = false then
            ⟨shared, ⟨thread.tl, .loadNt reading⟩, .silent⟩
          else ⟨shared, ⟨thread.tl, .loadExtAgain reading⟩, .silent⟩
  | .loadNt reading =>
      ⟨shared, ⟨thread.tl, .loadWays reading shared.libNumThreads⟩,
        .silent⟩
  | .loadWays reading nt =>
      match librarySetting shared.libPackedWays nt with
      | some act => returnRead shared thread.tl reading act false
      | none => ⟨shared, ⟨thread.tl, .loadExtAgain reading⟩, .silent⟩
  | .loadExtAgain reading =>
      if shared.libExtMtCtrVar = false then
        match config.setting with
        | some act => returnRead shared thread.tl reading act false
        | none => fallThrough config shared thread.tl reading
      else fallThrough config shared thread.tl reading
  | .storeExt reading =>
      returnRead { shared with libExtMtCtrVar := true }
        { thread.tl with extMtCtrVar := true } reading
        ⟨reading.omp.maxThreads, -1, -1⟩ true

/-! ## Runs -/

/-- A read that has returned, with the thread count it had to return. -/
structure ReadReturn where
  expects : Option Int
  active : ActiveRntm
  deriving DecidableEq, Repr

variable {Tid : Type}

/--
History of a run: the threads inside a library setter, how many such calls
have started, the count of the last `dlp_thread_set_num_threads_library` that
returned with no setter running or started since, and the returned reads.
-/
structure History (Tid : Type) where
  setters : List Tid
  setterStarts : Nat
  latest : Option Int
  returns : List ReadReturn

/-- The whole system. -/
structure State (Tid : Type) where
  shared : Shared
  thread : Tid → Thread
  history : History Tid

/-- The library holds no positive way. -/
def Shared.NoWays (shared : Shared) : Prop :=
  (dlpUnpackWays shared.libPackedWays).1.toInt ≤ 0 ∧
    (dlpUnpackWays shared.libPackedWays).2.toInt ≤ 0

instance (shared : Shared) : Decidable shared.NoWays :=
  inferInstanceAs (Decidable (_ ∧ _))

/--
What a read that begins now has to return: the latest count, on a thread
without its own setting, outside a nested region, with no library ways.
-/
def expectation (state : State Tid) (tid : Tid) (omp : OmpView) :
    Option Int :=
  if (state.thread tid).tl.Unset ∧ omp.canCreateParallelTeam = true ∧
      state.shared.NoWays then state.history.latest
  else none

variable [DecidableEq Tid]

/-- A library setter has started. -/
def History.setterStarted (history : History Tid) (tid : Tid) :
    History Tid :=
  { history with
    setters := tid :: history.setters
    setterStarts := history.setterStarts + 1
    latest := none }

/-- A library setter has returned with the given count, if it set one. -/
def History.setterReturned (history : History Tid) (tid : Tid)
    (nThreads : Int) : History Tid :=
  let setters := history.setters.filter (· ≠ tid)
  { history with
    setters := setters
    latest := if 0 < nThreads ∧ setters = [] then some nThreads else none }

/-- Record an event of a thread. -/
def History.record (history : History Tid) (tid : Tid) :
    Event → History Tid
  | .silent => history
  | .waysReturned => history.setterReturned tid (-1)
  | .numThreadsReturned nThreads => history.setterReturned tid nThreads
  | .readReturned reading active =>
      let expects :=
        if reading.startedAt = history.setterStarts then reading.expects
        else none
      { history with returns := ⟨expects, active⟩ :: history.returns }

/-- The history after a call begins. -/
def History.begin (history : History Tid) (tid : Tid) :
    Call → History Tid
  | .setWaysLibrary _ _ => history.setterStarted tid
  | .setNumThreadsLibrary _ => history.setterStarted tid
  | _ => history

/-- Attach the expectation to a read that begins. -/
def annotate (state : State Tid) (tid : Tid) : Call → Call
  | .rntmInitFromGlobal reading =>
      .rntmInitFromGlobal
        ⟨reading.omp, expectation state tid reading.omp,
          state.history.setterStarts⟩
  | call => call

/-- What the scheduler does: begin a call on an idle thread, or step. -/
inductive Action (Tid : Type) where
  | begin (tid : Tid) (call : Call)
  | step (tid : Tid)

/-- An idle thread begins a call; busy threads ignore the request. -/
def beginCall (state : State Tid) (tid : Tid) (call : Call) : State Tid :=
  match (state.thread tid).pc with
  | .idle =>
      let call := annotate state tid call
      let tl := (state.thread tid).tl
      { shared := state.shared
        thread := Function.update state.thread tid
          ⟨tl, if tl.pendingInit then .tlInit call else call.enter⟩
        history := state.history.begin tid call }
  | _ => state

/-- A thread performs its next atomic. -/
def stepCall (config : Config) (state : State Tid) (tid : Tid) :
    State Tid :=
  let effect := stepThread config state.shared (state.thread tid)
  { shared := effect.shared
    thread := Function.update state.thread tid effect.thread
    history := state.history.record tid effect.event }

/-- One action of the system. -/
def act (config : Config) : Action Tid → State Tid → State Tid
  | .begin tid call, state => beginCall state tid call
  | .step tid, state => stepCall config state tid

/-- The state after `dlp_init_threading`. -/
def initial (config : Config) (omp : OmpView) : State Tid where
  shared := dlpInitThreading config omp
  thread := fun _ => ⟨.initializer, .idle⟩
  history := ⟨[], 0, none, []⟩

/-- All interleavings of all calls. -/
def runtime (config : Config) (omp : OmpView) : Machine (State Tid) :=
  Machine.ofActions (initial config omp) (act config)

/-- Every read that had to return a count returned it. -/
def NoLostSetting (state : State Tid) : Prop :=
  ∀ read, read ∈ state.history.returns → ∀ n, read.expects = some n →
    read.active.rntm.numThreads = n

end AoclDlp.Runtime.Settings
