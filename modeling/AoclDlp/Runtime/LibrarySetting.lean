import AoclDlp.Runtime.Settings

/-!
# A library setting is not lost

A read that finds no setting hands control to OpenMP by storing the flag that
every setter clears.  The store happens after the loads that justified it, so
a setter that completes in between loses its setting.  Runs in which no read
stands between those loads and that store when
`dlp_thread_set_num_threads_library` clears the flag, and in which no other
setter stores the thread count between the two stores of such a call, lose no
setting.
-/

namespace AoclDlp.Runtime.Settings

open AoclDlp.Foundations.Transition
open AoclDlp.Threading.Factorization

/-! ## The condition -/

/-- The read has loaded no thread count of the library, has no setting of the
environment and sees threads of OpenMP, so it hands control to OpenMP; one that
has its ways still to load does so unless it loads some. -/
def Committed (config : Config) : Pc → Prop
  | .loadWays reading nt =>
      nt ≤ 0 ∧ config.setting = none ∧ 0 < reading.omp.maxThreads
  | .loadExtAgain reading =>
      config.setting = none ∧ 0 < reading.omp.maxThreads
  | .storeExt _ => True
  | _ => False

variable {Tid : Type}

/-- The step does not disturb a call that sets the thread count. -/
def Undisturbed (config : Config) (state : State Tid) :
    Action Tid → Prop
  | .begin _ _ => True
  | .step tid =>
      match (state.thread tid).pc with
      | .storeNt _ | .storeWaysNt =>
          ∀ other, other ≠ tid → ∀ n, 0 < n →
            (state.thread other).pc ≠ .storeNtExt n
      | .storeNtExt n =>
          0 < n → ∀ reader, ¬ Committed config (state.thread reader).pc
      | _ => True

/-! ## The invariant -/

/-- The thread is inside a library setter. -/
def Pc.inSetter : Pc → Bool
  | .tlInit (.setWaysLibrary _ _) => true
  | .tlInit (.setNumThreadsLibrary _) => true
  | .storeWays _ | .storeWaysNt | .storeWaysExt => true
  | .storeNt _ | .storeNtExt _ => true
  | _ => false

/-- The read that the thread performs. -/
def Pc.reading : Pc → Option Reading
  | .tlInit (.rntmInitFromGlobal reading) => some reading
  | .loadExt reading | .loadNt reading | .loadWays reading _ => some reading
  | .loadExtAgain reading | .storeExt reading => some reading
  | _ => none

/-- The read stands before the library level, or has loaded the count. -/
def OnTrack (n : Int) : Pc → Prop
  | .tlInit _ | .loadExt _ | .loadNt _ => True
  | .loadWays _ nt => nt = n
  | _ => False

/-- A read that has to return a count will return it. -/
structure Expecting (shared : Shared) (history : History Tid)
    (thread : Thread) (reading : Reading) (n : Int) : Prop where
  latest : history.latest = some n
  noWays : shared.NoWays
  unset : thread.tl.Unset
  team : reading.omp.canCreateParallelTeam = true
  onTrack : OnTrack n thread.pc

/-- The invariant of one thread. -/
structure ThreadInv (config : Config) (shared : Shared)
    (history : History Tid) (tid : Tid) (thread : Thread) : Prop where
  setter : thread.pc.inSetter = true → tid ∈ history.setters
  storing : ∀ n, thread.pc = .storeNtExt n → 0 < n →
    shared.libNumThreads = n
  uncommitted : ∀ n, history.latest = some n →
    ¬ Committed config thread.pc
  bounded : ∀ reading, thread.pc.reading = some reading →
    reading.startedAt ≤ history.setterStarts
  expecting : ∀ reading n, thread.pc.reading = some reading →
    reading.expects = some n → reading.startedAt = history.setterStarts →
      Expecting shared history thread reading n

/-- A settled count is visible, and no setter is running. -/
structure Visible (shared : Shared) (history : History Tid) (n : Int) :
    Prop where
  positive : 0 < n
  stored : shared.libNumThreads = n
  controlled : shared.libExtMtCtrVar = false
  quiet : history.setters = []

/-- The invariant of the system. -/
structure Inv (config : Config) (state : State Tid) : Prop where
  visible : ∀ n, state.history.latest = some n →
    Visible state.shared state.history n
  threads : ∀ tid,
    ThreadInv config state.shared state.history tid (state.thread tid)
  returned : NoLostSetting state

theorem inv_initial (config : Config) (omp : OmpView) :
    Inv config (initial config omp : State Tid) where
  visible := nofun
  threads := fun _ =>
    ⟨nofun, nofun, nofun, nofun, nofun⟩
  returned := nofun

/-! ## Rebuilding the invariant after a step -/

section Rebuild

variable {config : Config} {state : State Tid} {tid : Tid}
    {shared : Shared} {history : History Tid} {thread : Thread}

theorem ThreadInv.idle (tl : TlRntm) :
    ThreadInv config shared history tid ⟨tl, .idle⟩ :=
  ⟨nofun, nofun, fun _ _ => id, nofun, nofun⟩

/-- Without a settled count, other threads only care about their store. -/
theorem ThreadInv.of_unsettled {oldShared : Shared}
    {oldHistory : History Tid}
    (inv : ThreadInv config oldShared oldHistory tid thread)
    (unsettled : oldHistory.latest = none)
    (setters : tid ∈ oldHistory.setters → tid ∈ history.setters)
    (starts : history.setterStarts = oldHistory.setterStarts)
    (storing : ∀ n, thread.pc = .storeNtExt n → 0 < n →
      shared.libNumThreads = n)
    (uncommitted : ∀ n, history.latest = some n →
      ¬ Committed config thread.pc) :
    ThreadInv config shared history tid thread where
  setter inside := setters (inv.setter inside)
  storing := storing
  uncommitted := uncommitted
  bounded reading runs := starts ▸ inv.bounded reading runs
  expecting reading n runs expects current := by
    have old := inv.expecting reading n runs expects (current.trans starts)
    exact absurd (unsettled.symm.trans old.latest) nofun

theorem Inv.unsettled (inv : Inv config state)
    (inside : (state.thread tid).pc.inSetter = true) :
    state.history.latest = none := by
  cases settled : state.history.latest with
  | none => rfl
  | some n =>
      have running := (inv.threads tid).setter inside
      rw [(inv.visible n settled).quiet] at running
      cases running

/-- The thread's read goes on to its next atomic. -/
theorem ThreadInv.readOn {reading : Reading} {pc : Pc} {tl : TlRntm}
    (inv : ThreadInv config shared history tid thread)
    (runs : thread.pc.reading = some reading)
    (goesOn : pc.reading = some reading) (notSetter : pc.inSetter = false)
    (unset : thread.tl.Unset → tl.Unset)
    (uncommitted : ∀ n, history.latest = some n → ¬ Committed config pc)
    (track : ∀ n, Expecting shared history thread reading n →
      OnTrack n pc) :
    ThreadInv config shared history tid ⟨tl, pc⟩ where
  setter inside := absurd (notSetter.symm.trans inside) nofun
  storing n atStore := by
    change pc = _ at atStore
    rw [atStore] at notSetter
    cases notSetter
  uncommitted := uncommitted
  bounded other same := by
    cases goesOn.symm.trans same
    exact inv.bounded reading runs
  expecting other n same expects current := by
    cases goesOn.symm.trans same
    have old := inv.expecting reading n runs expects current
    exact ⟨old.latest, old.noWays, unset old.unset, old.team,
      track n old⟩

theorem ThreadInv.enter {call : Call} {tl newTl : TlRntm}
    (inv : ThreadInv config shared history tid ⟨tl, .tlInit call⟩)
    (unset : tl.Unset → newTl.Unset) :
    ThreadInv config shared history tid ⟨newTl, call.enter⟩ := by
  cases call with
  | rntmInitFromGlobal reading =>
      exact inv.readOn rfl rfl rfl unset (fun _ _ => id)
        fun _ _ => trivial
  | setWaysLibrary jc ic =>
      exact ⟨fun _ => inv.setter rfl, nofun, fun _ _ => id, nofun, nofun⟩
  | setNumThreadsLibrary nThreads =>
      exact ⟨fun _ => inv.setter rfl, nofun, fun _ _ => id, nofun, nofun⟩
  | setWaysLocal jc ic =>
      exact ⟨nofun, nofun, fun _ _ => id, nofun, nofun⟩
  | setNumThreadsLocal nThreads =>
      exact ⟨nofun, nofun, fun _ _ => id, nofun, nofun⟩

/-- A thread that begins a call, before or after its initialisation. -/
theorem ThreadInv.begin {call : Call} {tl : TlRntm}
    (inv : ThreadInv config shared history tid ⟨tl, .tlInit call⟩) :
    ThreadInv config shared history tid
      ⟨tl, if tl.pendingInit then .tlInit call else call.enter⟩ := by
  split
  · exact inv
  · exact inv.enter id

variable [DecidableEq Tid]

/-- Replace one thread, the shared variables and the history. -/
theorem Inv.replace
    (visible : ∀ n, history.latest = some n → Visible shared history n)
    (own : ThreadInv config shared history tid thread)
    (others : ∀ other, other ≠ tid →
      ThreadInv config shared history other (state.thread other))
    (returned : ∀ read, read ∈ history.returns → ∀ n,
      read.expects = some n → read.active.rntm.numThreads = n) :
    Inv config
      ⟨shared, Function.update state.thread tid thread, history⟩ where
  visible := visible
  threads other := by
    by_cases same : other = tid
    · subst same
      change ThreadInv config shared history other
        (Function.update state.thread other thread other)
      rw [Function.update_self]
      exact own
    · change ThreadInv config shared history other
        (Function.update state.thread tid thread other)
      rw [Function.update_of_ne same]
      exact others other same
  returned := returned

/-- A step that changes only the thread itself. -/
theorem Inv.ownStep (inv : Inv config state)
    (own : ThreadInv config state.shared state.history tid thread) :
    Inv config ⟨state.shared, Function.update state.thread tid thread,
      state.history⟩ :=
  Inv.replace inv.visible own (fun other _ => inv.threads other)
    inv.returned

/-- A read returns a count that meets its expectation. -/
theorem Inv.readReturned (inv : Inv config state) {reading : Reading}
    {active : ActiveRntm} (tl : TlRntm)
    (met : ∀ n, reading.expects = some n →
      reading.startedAt = state.history.setterStarts →
        active.rntm.numThreads = n) :
    Inv config ⟨state.shared, Function.update state.thread tid ⟨tl, .idle⟩,
      state.history.record tid (.readReturned reading active)⟩ := by
  refine Inv.replace ?_ (ThreadInv.idle tl) ?_ ?_
  · intro n latest
    have old := inv.visible n latest
    exact ⟨old.positive, old.stored, old.controlled, old.quiet⟩
  · intro other _
    have old := inv.threads other
    exact ⟨old.setter, old.storing, old.uncommitted, old.bounded,
      fun reading n runs expects current =>
        let still := old.expecting reading n runs expects current
        ⟨still.latest, still.noWays, still.unset, still.team,
          still.onTrack⟩⟩
  · intro read member n expects
    rcases List.mem_cons.mp member with rfl | earlier
    · dsimp only at expects
      split at expects
      next current => exact met n expects current
      next => cases expects
    · exact inv.returned read earlier n expects

/-! ## Setter steps -/

/-- A store of a setter that does not return yet. -/
theorem Inv.setterStore (inv : Inv config state)
    (inside : (state.thread tid).pc.inSetter = true)
    (own : ThreadInv config shared state.history tid thread)
    (others : ∀ other, other ≠ tid → ∀ n,
      (state.thread other).pc = .storeNtExt n → 0 < n →
        shared.libNumThreads = n) :
    Inv config ⟨shared, Function.update state.thread tid thread,
      state.history⟩ := by
  have unsettled := inv.unsettled inside
  refine Inv.replace ?_ own ?_ inv.returned
  · intro n settled
    exact absurd (unsettled.symm.trans settled) nofun
  · intro other different
    exact (inv.threads other).of_unsettled unsettled id rfl
      (others other different)
      (fun n settled => absurd (unsettled.symm.trans settled) nofun)

/-- A setter clears the flag and returns. -/
theorem Inv.setterReturned (inv : Inv config state)
    (inside : (state.thread tid).pc.inSetter = true) (tl : TlRntm)
    {nThreads : Int}
    (stored : 0 < nThreads → state.shared.libNumThreads = nThreads)
    (uncommitted : 0 < nThreads → ∀ reader,
      ¬ Committed config (state.thread reader).pc) :
    Inv config
      ⟨{ state.shared with libExtMtCtrVar := false },
        Function.update state.thread tid ⟨tl, .idle⟩,
        state.history.setterReturned tid nThreads⟩ := by
  have unsettled := inv.unsettled inside
  have settled {n : Int}
      (latest : (state.history.setterReturned tid nThreads).latest =
        some n) :
      n = nThreads ∧ 0 < nThreads ∧
        (state.history.setterReturned tid nThreads).setters = [] := by
    unfold History.setterReturned at latest
    dsimp only at latest
    split at latest
    next returned =>
      cases latest
      exact ⟨rfl, returned.1, returned.2⟩
    next => cases latest
  refine Inv.replace ?_ (ThreadInv.idle tl) ?_ inv.returned
  · intro n latest
    rcases settled latest with ⟨rfl, positive, quiet⟩
    exact ⟨positive, stored positive, rfl, quiet⟩
  · intro other different
    refine (inv.threads other).of_unsettled unsettled ?_ rfl
      (inv.threads other).storing ?_
    · intro running
      exact List.mem_filter.mpr ⟨running, by simpa using different⟩
    · intro n latest
      exact uncommitted (settled latest).2.1 other

/-! ## Read steps -/

theorem setting_of_unset {tl : TlRntm} (unset : tl.Unset) :
    tl.setting = none := by
  rcases unset with ⟨nt, ic, jc⟩
  simp [TlRntm.setting, chooseSetting, Int.not_lt.mpr nt,
    Int.not_lt.mpr ic, Int.not_lt.mpr jc]

theorem librarySetting_of_noWays {shared : Shared} (noWays : shared.NoWays)
    {n : Int} (positive : 0 < n) :
    librarySetting shared.libPackedWays n = some ⟨n, -1, -1⟩ := by
  rcases noWays with ⟨ic, jc⟩
  simp [librarySetting, chooseSetting, Int.not_lt.mpr ic,
    Int.not_lt.mpr jc, positive]

theorem librarySetting_none {packed : BitVec 64} {nt : Int}
    (empty : librarySetting packed nt = none) : nt ≤ 0 := by
  unfold librarySetting chooseSetting at empty
  split at empty
  · cases empty
  · split at empty
    · cases empty
    · omega

theorem adjustNested_team {omp : OmpView} (act : DlpRntm) (ext : Bool)
    (team : omp.canCreateParallelTeam = true) :
    adjustNested omp act ext = ⟨act, ext⟩ := by
  simp [adjustNested, team]

theorem Inv.loadExt (inv : Inv config state) {tl : TlRntm}
    {reading : Reading} (here : state.thread tid = ⟨tl, .loadExt reading⟩) :
    Inv config (stepCall config state tid) := by
  have own := inv.threads tid
  rw [here] at own
  unfold stepCall
  rw [here]
  dsimp only [stepThread]
  cases setting : tl.setting with
  | some act =>
      apply inv.readReturned
      intro n expects current
      have unset := (own.expecting reading n rfl expects current).unset
      exact absurd ((setting_of_unset unset).symm.trans setting) nofun
  | none =>
      by_cases controlled : state.shared.libExtMtCtrVar = false
      · rw [if_pos controlled]
        exact inv.ownStep (own.readOn rfl rfl rfl id (fun _ _ => id)
          fun _ _ => trivial)
      · rw [if_neg controlled]
        have external {n : Int} (settled : state.history.latest = some n) :
            False :=
          controlled (inv.visible n settled).controlled
        exact inv.ownStep (own.readOn rfl rfl rfl id
          (fun n settled => (external settled).elim)
          fun n expecting => (external expecting.latest).elim)

theorem Inv.loadNt (inv : Inv config state) {tl : TlRntm}
    {reading : Reading} (here : state.thread tid = ⟨tl, .loadNt reading⟩) :
    Inv config (stepCall config state tid) := by
  have own := inv.threads tid
  rw [here] at own
  unfold stepCall
  rw [here]
  refine inv.ownStep (own.readOn rfl rfl rfl id ?_ ?_)
  · rintro n settled ⟨unset, _⟩
    have visible := inv.visible n settled
    rw [visible.stored] at unset
    exact absurd visible.positive (Int.not_lt.mpr unset)
  · intro n expecting
    exact (inv.visible n expecting.latest).stored

theorem Inv.loadWays (inv : Inv config state) {tl : TlRntm}
    {reading : Reading} {nt : Int}
    (here : state.thread tid = ⟨tl, .loadWays reading nt⟩) :
    Inv config (stepCall config state tid) := by
  have own := inv.threads tid
  rw [here] at own
  unfold stepCall
  rw [here]
  dsimp only [stepThread]
  have found {n : Int} (expecting : Expecting state.shared state.history
      ⟨tl, .loadWays reading nt⟩ reading n) :
      librarySetting state.shared.libPackedWays nt = some ⟨n, -1, -1⟩ := by
    have loaded : nt = n := expecting.onTrack
    rw [loaded]
    exact librarySetting_of_noWays expecting.noWays
      (inv.visible n expecting.latest).positive
  cases setting : librarySetting state.shared.libPackedWays nt with
  | some act =>
      apply inv.readReturned
      intro n expects current
      have expecting := own.expecting reading n rfl expects current
      cases (found expecting).symm.trans setting
      rw [adjustNested_team _ _ expecting.team]
  | none =>
      have unset := librarySetting_none setting
      refine inv.ownStep (own.readOn rfl rfl rfl id ?_ ?_)
      · rintro n settled ⟨noEnv, omp⟩
        exact own.uncommitted n settled ⟨unset, noEnv, omp⟩
      · intro n expecting
        exact absurd ((found expecting).symm.trans setting) nofun

theorem Inv.fallThrough (inv : Inv config state) {tl : TlRntm}
    {reading : Reading}
    (here : state.thread tid = ⟨tl, .loadExtAgain reading⟩)
    (unsettled : 0 < reading.omp.maxThreads →
      state.history.latest = none) :
    let effect := fallThrough config state.shared tl reading
    Inv config ⟨effect.shared,
      Function.update state.thread tid effect.thread,
      state.history.record tid effect.event⟩ := by
  have own := inv.threads tid
  rw [here] at own
  intro effect
  change Inv config ⟨(Settings.fallThrough _ _ _ _).shared,
    Function.update state.thread tid (Settings.fallThrough _ _ _ _).thread,
    state.history.record tid (Settings.fallThrough _ _ _ _).event⟩
  unfold Settings.fallThrough
  split
  next omp =>
    refine inv.ownStep (own.readOn rfl rfl rfl id ?_ ?_)
    · intro n settled
      exact absurd ((unsettled omp).symm.trans settled) nofun
    · intro n expecting
      exact absurd ((unsettled omp).symm.trans expecting.latest) nofun
  next =>
    apply inv.readReturned
    intro n expects current
    exact (own.expecting reading n rfl expects current).onTrack.elim

theorem Inv.loadExtAgain (inv : Inv config state) {tl : TlRntm}
    {reading : Reading}
    (here : state.thread tid = ⟨tl, .loadExtAgain reading⟩) :
    Inv config (stepCall config state tid) := by
  have own := inv.threads tid
  rw [here] at own
  unfold stepCall
  rw [here]
  dsimp only [stepThread]
  split
  next controlled =>
    cases setting : config.setting with
    | some act =>
        apply inv.readReturned
        intro n expects current
        exact (own.expecting reading n rfl expects current).onTrack.elim
    | none =>
        apply inv.fallThrough here
        intro omp
        cases settled : state.history.latest with
        | none => rfl
        | some n => exact (own.uncommitted n settled ⟨setting, omp⟩).elim
  next external =>
    apply inv.fallThrough here
    intro omp
    cases settled : state.history.latest with
    | none => rfl
    | some n =>
        exact (external (inv.visible n settled).controlled).elim

theorem Inv.storeExt (inv : Inv config state) {tl : TlRntm}
    {reading : Reading}
    (here : state.thread tid = ⟨tl, .storeExt reading⟩) :
    Inv config (stepCall config state tid) := by
  have own := inv.threads tid
  rw [here] at own
  have unsettled : state.history.latest = none := by
    cases settled : state.history.latest with
    | none => rfl
    | some n => exact (own.uncommitted n settled trivial).elim
  unfold stepCall
  rw [here]
  refine Inv.replace ?_ (ThreadInv.idle _) ?_ ?_
  · intro n settled
    exact absurd (unsettled.symm.trans settled) nofun
  · intro other _
    exact (inv.threads other).of_unsettled unsettled id rfl
      (inv.threads other).storing
      (fun n settled => absurd (unsettled.symm.trans settled) nofun)
  · intro read member n expects
    rcases List.mem_cons.mp member with rfl | earlier
    · dsimp only at expects
      split at expects
      next current =>
        exact (own.expecting reading n rfl expects current).onTrack.elim
      next => cases expects
    · exact inv.returned read earlier n expects

/-! ## Starting calls -/

/-- Every running setter voids what reads have to return. -/
theorem Inv.setterStarted (inv : Inv config state)
    (own : ThreadInv config state.shared (state.history.setterStarted tid)
      tid thread) :
    Inv config
      ⟨state.shared, Function.update state.thread tid thread,
        state.history.setterStarted tid⟩ := by
  refine Inv.replace nofun own ?_ inv.returned
  intro other _
  have old := inv.threads other
  refine ⟨fun inside => List.mem_cons_of_mem _ (old.setter inside),
    old.storing, nofun, ?_, ?_⟩
  · intro reading runs
    exact (old.bounded reading runs).trans (Nat.le_succ _)
  · intro reading n runs _ current
    have before := old.bounded reading runs
    rw [current] at before
    exact absurd before (Nat.not_succ_le_self _)

theorem Inv.beginCall (inv : Inv config state) (tid : Tid) (call : Call) :
    Inv config (beginCall state tid call) := by
  unfold Settings.beginCall
  split
  next idle =>
    cases call with
    | rntmInitFromGlobal reading =>
        refine inv.ownStep (ThreadInv.begin ⟨nofun, nofun, fun _ _ => id,
          ?_, ?_⟩)
        · rintro _ ⟨⟩
          exact le_rfl
        · rintro _ n ⟨⟩ expects _
          change expectation state tid reading.omp = some n at expects
          unfold expectation at expects
          split at expects
          next premise =>
            exact ⟨expects, premise.2.2, premise.1, premise.2.1, trivial⟩
          next => cases expects
    | setWaysLibrary jc ic =>
        exact inv.setterStarted (ThreadInv.begin
          ⟨fun _ => List.mem_cons_self, nofun, nofun, nofun, nofun⟩)
    | setNumThreadsLibrary nThreads =>
        exact inv.setterStarted (ThreadInv.begin
          ⟨fun _ => List.mem_cons_self, nofun, nofun, nofun, nofun⟩)
    | setWaysLocal jc ic =>
        exact inv.ownStep (ThreadInv.begin
          ⟨nofun, nofun, fun _ _ => id, nofun, nofun⟩)
    | setNumThreadsLocal nThreads =>
        exact inv.ownStep (ThreadInv.begin
          ⟨nofun, nofun, fun _ _ => id, nofun, nofun⟩)
  next => exact inv

/-- One atomic of one thread preserves the invariant. -/
theorem Inv.stepCall (inv : Inv config state) (tid : Tid)
    (undisturbed : Undisturbed config state (.step tid)) :
    Inv config (stepCall config state tid) := by
  have own := inv.threads tid
  dsimp only [Undisturbed] at undisturbed
  rcases here : state.thread tid with ⟨tl, pc⟩
  rw [here] at own undisturbed
  have inside (within : pc.inSetter = true) :
      (state.thread tid).pc.inSetter = true := by
    rw [here]
    exact within
  cases pc with
  | loadExt reading => exact inv.loadExt here
  | loadNt reading => exact inv.loadNt here
  | loadWays reading nt => exact inv.loadWays here
  | loadExtAgain reading => exact inv.loadExtAgain here
  | storeExt reading => exact inv.storeExt here
  | idle =>
      unfold Settings.stepCall
      rw [here]
      exact inv.ownStep own
  | tlInit call =>
      unfold Settings.stepCall
      rw [here]
      exact inv.ownStep (own.enter id)
  | setLocal update =>
      unfold Settings.stepCall
      rw [here]
      exact inv.ownStep (ThreadInv.idle _)
  | storeWays packed =>
      unfold Settings.stepCall
      rw [here]
      refine inv.setterStore (inside rfl) ?_ fun other _ =>
        (inv.threads other).storing
      exact ⟨fun _ => own.setter rfl, nofun, fun _ _ => id, nofun, nofun⟩
  | storeWaysNt =>
      unfold Settings.stepCall
      rw [here]
      refine inv.setterStore (inside rfl) ?_ fun other different n storing
        positive => (undisturbed other different n positive storing).elim
      exact ⟨fun _ => own.setter rfl, nofun, fun _ _ => id, nofun, nofun⟩
  | storeNt nThreads =>
      unfold Settings.stepCall
      rw [here]
      refine inv.setterStore (inside rfl) ?_ fun other different n storing
        positive => (undisturbed other different n positive storing).elim
      refine ⟨fun _ => own.setter rfl, ?_, fun _ _ => id, nofun, nofun⟩
      rintro _ ⟨⟩ _
      rfl
  | storeWaysExt =>
      unfold Settings.stepCall
      rw [here]
      exact inv.setterReturned (inside rfl) tl
        (fun positive => absurd positive (by decide))
        (fun positive => absurd positive (by decide))
  | storeNtExt nThreads =>
      unfold Settings.stepCall
      rw [here]
      exact inv.setterReturned (inside rfl) tl (own.storing nThreads rfl)
        undisturbed

end Rebuild

variable [DecidableEq Tid]

/-- The runs all of whose steps are undisturbed. -/
def undisturbedRuntime (config : Config) (omp : OmpView) :
    Machine (State Tid) :=
  Machine.ofGuardedActions (initial config omp) (act config)
    (Undisturbed config)

/--
In every run whose steps are undisturbed, every read that begins after a
thread count was set, with no setter since, returns that count.
-/
theorem no_lost_setting (config : Config) (omp : OmpView) (state : State Tid)
    (reachable : (undisturbedRuntime config omp).Reachable state) :
    NoLostSetting state := by
  have inv : Inv config state := reachable.invariant (Inv config)
    (by
      rintro _ rfl
      exact inv_initial config omp)
    (by
      rintro current _ inv ⟨action, undisturbed, rfl⟩
      cases action with
      | begin tid call => exact inv.beginCall tid call
      | step tid => exact inv.stepCall tid undisturbed)
  exact inv.returned

/-- No variable of the environment is set. -/
def plainConfig : Config :=
  ⟨-1, -1, -1, 8⟩

/-- OpenMP offers eight threads. -/
def eightThreads : OmpView :=
  ⟨8, true⟩

/-- Begin a read. -/
def beginRead (tid : Tid) : Action Tid :=
  .begin tid (.rntmInitFromGlobal ⟨eightThreads, none, 0⟩)

/-- One thread sets four threads and then reads. -/
theorem no_lost_setting_set_then_read :
    ∃ read, read ∈ (Machine.runActions (act plainConfig)
        (initial plainConfig eightThreads)
        [.begin () (.setNumThreadsLibrary 4), .step (), .step (), .step (),
          beginRead (), .step (), .step (), .step ()]).history.returns ∧
      read.expects = some 4 ∧ read.active.rntm.numThreads = 4 := by
  have start : (undisturbedRuntime plainConfig eightThreads).Reachable
      (initial plainConfig eightThreads : State Unit) := .init rfl
  have set := (((start.step
      ⟨.begin () (.setNumThreadsLibrary 4), trivial, rfl⟩).step
      ⟨.step (), trivial, rfl⟩).step
      ⟨.step (), fun _ different => absurd rfl different, rfl⟩).step
      ⟨.step (), fun _ _ => id, rfl⟩
  have read := (((set.step ⟨beginRead (), trivial, rfl⟩).step
      ⟨.step (), trivial, rfl⟩).step ⟨.step (), trivial, rfl⟩).step
      ⟨.step (), trivial, rfl⟩
  have returned : (⟨some 4, ⟨⟨4, -1, -1⟩, false⟩⟩ : ReadReturn) ∈
      (Machine.runActions (act plainConfig)
        (initial plainConfig eightThreads)
        [.begin () (.setNumThreadsLibrary 4), .step (), .step (), .step (),
          beginRead (), .step (), .step (), .step ()]).history.returns := by
    decide
  exact ⟨_, returned, rfl, no_lost_setting _ _ _ read _ returned 4 rfl⟩

/--
A read has loaded the flag twice when another thread sets four threads; its
store then hands control back to OpenMP, and the next read returns eight.
-/
theorem library_setting_lost :
    ∃ state : State Bool,
      (runtime plainConfig eightThreads).Reachable state ∧
        ¬ NoLostSetting state := by
  let schedule : List (Action Bool) :=
    [beginRead false, .step false, .step false, .step false,
      .begin true (.setNumThreadsLibrary 4), .step true, .step true,
      .step true, .step false, beginRead true, .step true, .step true,
      .step true]
  have returned : (⟨some 4, ⟨⟨8, -1, -1⟩, true⟩⟩ : ReadReturn) ∈
      (Machine.runActions (act plainConfig)
        (initial plainConfig eightThreads) schedule).history.returns := by
    decide
  refine ⟨_, Machine.reachable_runActions (.init rfl) schedule, ?_⟩
  intro kept
  exact absurd (kept _ returned 4 rfl) (by decide)

end AoclDlp.Runtime.Settings
