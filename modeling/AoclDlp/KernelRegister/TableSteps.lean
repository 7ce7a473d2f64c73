import AoclDlp.KernelRegister.TableInvariant

/-!
# The steps of the dispatch table

`StepOk` says what one step of an insert establishes and what it leaves as it
was.  A scan moves past slots with other keys; a store and a new entry keep the
table well formed; the three writes of an entry happen while nobody reads it.
-/

namespace AoclDlp.KernelRegister.DispatchTable

variable {Key Value Op : Type} {params : Parameters Key}
variable {mem after : Memory Key Value Op} {key : Key} {value : Value}

/-! ## Equal keys -/

/-- Equal keys share a chain. -/
theorem Parameters.Lawful.index_eq (lawful : params.Lawful) {one two : Key}
    (same : params.keyComparator one two = true) :
    params.index one = params.index two := by
  unfold Parameters.index
  rw [lawful.hash one two same]

theorem Parameters.Lawful.startIdx_eq (lawful : params.Lawful)
    {one two : Key} (same : params.keyComparator one two = true) :
    params.startIdx one = params.startIdx two := by
  unfold Parameters.startIdx
  rw [lawful.index_eq same]

theorem Parameters.Lawful.endIdx_eq (lawful : params.Lawful)
    {one two : Key} (same : params.keyComparator one two = true) :
    params.endIdx one = params.endIdx two := by
  unfold Parameters.endIdx
  rw [lawful.index_eq same]

theorem Parameters.Lawful.rank_eq (lawful : params.Lawful) {one two : Key}
    (same : params.keyComparator one two = true) (slot : Slot) :
    rank params one slot = rank params two slot := by
  cases slot with
  | table i => rfl
  | backup bucket i => rw [rank_backup, rank_backup, lawful.endIdx_eq same]

theorem Parameters.Lawful.visits_iff (lawful : params.Lawful)
    {one two : Key} (same : params.keyComparator one two = true)
    (slot : Slot) : Visits params one slot ↔ Visits params two slot := by
  cases slot with
  | table i =>
      unfold Visits
      rw [lawful.startIdx_eq same, lawful.endIdx_eq same]
  | backup bucket i => exact Iff.rfl

theorem startIdx_le_endIdx (params : Parameters Key) (key : Key) :
    params.startIdx key ≤ params.endIdx key :=
  Nat.mul_le_mul_right _ (Nat.le_succ _)

/-- The key of a slot that holds an equal key. -/
theorem Holds.exists_key {slot : Slot} (holds : Holds params mem slot key) :
    ∃ stored, (mem.entry slot).key = some stored ∧
      params.keyComparator stored key = true := by
  have found := holds.2
  unfold keyMatches at found
  cases stored : (mem.entry slot).key with
  | none =>
      rw [stored] at found
      cases found
  | some stored' =>
      rw [stored] at found
      exact ⟨stored', rfl, found⟩

theorem keyMatches_of_key {slot : Slot} {stored : Key}
    (here : (mem.entry slot).key = some stored) :
    keyMatches params mem slot key = params.keyComparator stored key := by
  unfold keyMatches
  rw [here]

/-- A slot is visited by the scans for the key that it holds. -/
theorem TableOk.visits (lawful : params.Lawful)
    {offered : Key → Value → Prop} (ok : TableOk params offered mem)
    {slot : Slot} (holds : Holds params mem slot key) :
    Visits params key slot := by
  rcases holds.exists_key with ⟨stored, here, same⟩
  rcases ok.entry slot holds.1 with ⟨own, _, entry, visits, -⟩
  rw [entry] at here
  cases here
  exact (lawful.visits_iff same slot).mp visits

/-! ## Scans -/

theorem Behind.mono {place earlier : Nat}
    (behind : Behind params mem key place) (le : earlier ≤ place) :
    Behind params mem key earlier :=
  fun slot visits before => behind slot visits (lt_of_lt_of_le before le)

/-- A scan moves past a slot with another key. -/
theorem Behind.next {slot : Slot}
    (behind : Behind params mem key (rank params key slot))
    (visits : Visits params key slot) (occupied : Occupied mem slot)
    (other : ¬ keyMatches params mem slot key = true) :
    Behind params mem key (rank params key slot + 1) := by
  intro earlier seen before
  rcases Nat.lt_succ_iff_lt_or_eq.mp before with passed | same
  · exact behind earlier seen passed
  · rw [rank_injective seen visits same]
    exact ⟨occupied, other⟩

/-- Nothing is visited before the first slot of the chain. -/
theorem behind_start (mem : Memory Key Value Op) (key : Key) :
    Behind params mem key (params.startIdx key) := by
  intro slot visits before
  cases slot with
  | table i => exact absurd before (not_lt.mpr visits.1)
  | backup bucket i =>
      have late := endIdx_le_rank_backup params key bucket i
      have chain := startIdx_le_endIdx params key
      omega

/-! ## Writes -/

theorem entry_setEntry_self (mem : Memory Key Value Op) (slot : Slot)
    (entry : Entry Key Value) : (mem.setEntry slot entry).entry slot = entry :=
  Function.update_self ..

theorem entry_setEntry_of_ne (mem : Memory Key Value Op) {slot other : Slot}
    (apart : other ≠ slot) (entry : Entry Key Value) :
    (mem.setEntry slot entry).entry other = mem.entry other :=
  Function.update_of_ne apart ..

/-- A write that keeps the occupancy, and the key of an occupied slot. -/
theorem steady_setEntry {slot : Slot} {entry : Entry Key Value}
    (occupied : entry.isOccupied = (mem.entry slot).isOccupied)
    (same : Occupied mem slot → entry.key = (mem.entry slot).key) :
    Steady mem (mem.setEntry slot entry) := by
  refine ⟨⟨?_, ?_, fun _ member => member⟩, rfl, rfl, rfl⟩
  · intro other
    by_cases here : other = slot
    · subst other
      rw [entry_setEntry_self, occupied]
    · rw [entry_setEntry_of_ne mem here]
  · intro other held
    by_cases here : other = slot
    · subst other
      rw [entry_setEntry_self, same held]
    · rw [entry_setEntry_of_ne mem here]

theorem steady_sinkCollect (mem : Memory Key Value Op) (value : Value) :
    Steady mem (mem.sinkCollect value) :=
  ⟨⟨fun _ => rfl, fun _ _ => rfl,
    fun _ member => List.mem_append_left _ member⟩, rfl, rfl, rfl⟩

/-- Steps that touch no occupied slot keep the table well formed. -/
theorem TableOk.sameKeys {offered : Key → Value → Prop}
    (ok : TableOk params offered mem) (keys : SameKeys mem after)
    (same : ∀ slot, Occupied mem slot → after.entry slot = mem.entry slot)
    (watched : ∀ slot value, (after.entry slot).value = some value →
      value ∈ after.valueSink) :
    TableOk params offered after := by
  have holds : ∀ slot key, Holds params after slot key →
      Holds params mem slot key := by
    intro slot key held
    have occupied := (keys.occupied_iff slot).mp held.1
    refine ⟨occupied, ?_⟩
    rw [← keyMatches_congr (keys.key slot occupied)]
    exact held.2
  refine ⟨?_, ?_, ?_, watched⟩
  · intro slot occupied
    have before := (keys.occupied_iff slot).mp occupied
    rw [same slot before]
    exact ok.entry slot before
  · intro slot key occupied here earlier visits before
    have held := (keys.occupied_iff slot).mp occupied
    rw [same slot held] at here
    exact (keys.occupied_iff earlier).mpr
      (ok.packed slot key held here earlier visits before)
  · intro one two key first second
    exact ok.unique one two key (holds one key first) (holds two key second)

/-- A write into a slot that nobody reads. -/
theorem TableOk.setFree {offered : Key → Value → Prop}
    (ok : TableOk params offered mem) {slot : Slot}
    (free : ¬ Occupied mem slot) {entry : Entry Key Value}
    (still : entry.isOccupied = false)
    (watched : ∀ value, entry.value = some value → value ∈ mem.valueSink) :
    TableOk params offered (mem.setEntry slot entry) ∧
      Steady mem (mem.setEntry slot entry) := by
  have steady : Steady mem (mem.setEntry slot entry) :=
    steady_setEntry (still.trans (Bool.eq_false_of_not_eq_true free).symm)
      fun occupied => absurd occupied free
  refine ⟨ok.sameKeys steady.toSameKeys ?_ ?_, steady⟩
  · intro other occupied
    refine entry_setEntry_of_ne mem ?_ entry
    rintro rfl
    exact free occupied
  · intro other found here
    by_cases same : other = slot
    · subst other
      rw [entry_setEntry_self] at here
      exact watched found here
    · rw [entry_setEntry_of_ne mem same] at here
      exact ok.watched other found here

/-- A new value for the key of a slot. -/
theorem TableOk.store {offered : Key → Value → Prop}
    (ok : TableOk params offered mem) {slot : Slot}
    (holds : Holds params mem slot key)
    (own : ∀ stored, params.keyComparator stored key = true →
      offered stored value)
    (watched : value ∈ mem.valueSink) :
    TableOk params offered (mem.setEntry slot
        { mem.entry slot with value := some value }) ∧
      Quiet mem (mem.setEntry slot
        { mem.entry slot with value := some value }) := by
  have steady : Steady mem (mem.setEntry slot
      { mem.entry slot with value := some value }) :=
    steady_setEntry rfl fun _ => rfl
  have key_eq : ∀ other, ((mem.setEntry slot
      { mem.entry slot with value := some value }).entry other).key =
        (mem.entry other).key := by
    intro other
    by_cases same : other = slot
    · subst other
      rw [entry_setEntry_self]
    · rw [entry_setEntry_of_ne mem same]
  refine ⟨⟨?_, ?_, ?_, ?_⟩, steady, ?_⟩
  · intro other occupied
    have before := (steady.occupied_iff other).mp occupied
    rcases ok.entry other before with ⟨stored, old, entry, visits, offers⟩
    by_cases same : other = slot
    · subst other
      rcases holds.exists_key with ⟨found, here, equal⟩
      rw [entry] at here
      cases here
      rw [entry_setEntry_self, entry]
      exact ⟨stored, value, rfl, visits, own stored equal⟩
    · rw [entry_setEntry_of_ne mem same]
      exact ⟨stored, old, entry, visits, offers⟩
  · intro other found occupied here earlier visits before
    rw [key_eq] at here
    exact (steady.occupied_iff earlier).mpr (ok.packed other found
      ((steady.occupied_iff other).mp occupied) here earlier visits before)
  · intro one two found first second
    refine ok.unique one two found
      ⟨(steady.occupied_iff one).mp first.1, ?_⟩
      ⟨(steady.occupied_iff two).mp second.1, ?_⟩
    · rw [← keyMatches_congr (key_eq one)]
      exact first.2
    · rw [← keyMatches_congr (key_eq two)]
      exact second.2
  · intro other found here
    by_cases same : other = slot
    · subst other
      rw [entry_setEntry_self] at here
      cases here
      exact watched
    · rw [entry_setEntry_of_ne mem same] at here
      exact ok.watched other found here
  · intro other free
    refine entry_setEntry_of_ne mem ?_ _
    rintro rfl
    exact free holds.1

/-- A new key in the first free slot of its scan. -/
theorem TableOk.occupy (lawful : params.Lawful)
    {offered : Key → Value → Prop} (ok : TableOk params offered mem)
    {slot : Slot} (visits : Visits params key slot)
    (free : ¬ Occupied mem slot)
    (behind : Behind params mem key (rank params key slot))
    (wroteKey : (mem.entry slot).key = some key)
    (wroteValue : (mem.entry slot).value = some value)
    (own : offered key value) :
    TableOk params offered (mem.setEntry slot
        { mem.entry slot with isOccupied := true }) ∧
      Extends mem (mem.setEntry slot
        { mem.entry slot with isOccupied := true }) := by
  generalize written : mem.setEntry slot
    { mem.entry slot with isOccupied := true } = after
  have here : after.entry slot = ⟨some key, some value, true⟩ := by
    rw [← written, entry_setEntry_self]
    dsimp only
    rw [wroteKey, wroteValue]
  have away : ∀ other, other ≠ slot → after.entry other = mem.entry other := by
    intro other apart
    rw [← written]
    exact entry_setEntry_of_ne mem apart _
  have occupied_iff : ∀ other, other ≠ slot →
      (Occupied after other ↔ Occupied mem other) := by
    intro other apart
    unfold Occupied
    rw [away other apart]
  have grows : ∀ other, Occupied mem other → Occupied after other := by
    intro other occupied
    by_cases same : other = slot
    · subst other
      exact absurd occupied free
    · exact (occupied_iff other same).mpr occupied
  have alone : ∀ other found, other ≠ slot → Occupied mem other →
      (mem.entry other).key = some found →
        ¬ params.keyComparator found key = true := by
    intro other found apart occupied stored equal
    have matching : keyMatches params mem other key = true := by
      rw [keyMatches_of_key stored]
      exact equal
    have seen := ok.visits lawful ⟨occupied, matching⟩
    rcases lt_trichotomy (rank params key other) (rank params key slot) with
      before | same | later
    · exact (behind other seen before).2 matching
    · exact apart (rank_injective seen visits same)
    · refine free (ok.packed other found occupied stored slot ?_ ?_)
      · exact (lawful.visits_iff equal slot).mpr visits
      · rw [lawful.rank_eq equal, lawful.rank_eq equal]
        exact later
  refine ⟨⟨?_, ?_, ?_, ?_⟩, ?_, ?_, ?_⟩
  · intro other occupied
    by_cases same : other = slot
    · subst other
      exact ⟨key, value, here, visits, own⟩
    · rw [away other same]
      exact ok.entry other ((occupied_iff other same).mp occupied)
  · intro other found occupied stored earlier seen before
    by_cases same : other = slot
    · subst other
      rw [here] at stored
      cases stored
      exact grows earlier (behind earlier seen before).1
    · rw [away other same] at stored
      exact grows earlier (ok.packed other found
        ((occupied_iff other same).mp occupied) stored earlier seen before)
  · intro one two found first second
    by_cases atOne : one = slot <;> by_cases atTwo : two = slot
    · exact atOne.trans atTwo.symm
    · subst one
      rcases first.exists_key with ⟨stored, own, equal⟩
      rcases second.exists_key with ⟨other, held, same⟩
      rw [here] at own
      cases own
      rw [away two atTwo] at held
      exact absurd (lawful.trans _ _ _ same (lawful.symm _ _ equal))
        (alone two other atTwo ((occupied_iff two atTwo).mp second.1) held)
    · subst two
      rcases second.exists_key with ⟨stored, own, equal⟩
      rcases first.exists_key with ⟨other, held, same⟩
      rw [here] at own
      cases own
      rw [away one atOne] at held
      exact absurd (lawful.trans _ _ _ same (lawful.symm _ _ equal))
        (alone one other atOne ((occupied_iff one atOne).mp first.1) held)
    · refine ok.unique one two found
        ⟨(occupied_iff one atOne).mp first.1, ?_⟩
        ⟨(occupied_iff two atTwo).mp second.1, ?_⟩
      · rw [← keyMatches_congr (congrArg Entry.key (away one atOne))]
        exact first.2
      · rw [← keyMatches_congr (congrArg Entry.key (away two atTwo))]
        exact second.2
  · intro other found stored
    have sink : after.valueSink = mem.valueSink := by
      rw [← written]
      rfl
    rw [sink]
    by_cases same : other = slot
    · subst other
      rw [here] at stored
      exact ok.watched slot found (wroteValue.trans stored)
    · rw [away other same] at stored
      exact ok.watched other found stored
  · intro other occupied
    refine ⟨grows other occupied, ?_⟩
    by_cases same : other = slot
    · subst other
      exact absurd occupied free
    · rw [away other same]
  · intro found member
    rw [← written]
    exact member
  · rw [← written]
    exact le_refl _

/-! ## The steps of an insert -/

variable (params) in
/-- What a step of an insert establishes. -/
structure StepOk (offered : Key → Value → Prop) (op : Op) (key : Key)
    (value : Value) (mem : Memory Key Value Op) (pc : Pc Value)
    (after : Memory Key Value Op) (next : Pc Value) : Prop where
  table : TableOk params offered after
  extend : Extends mem after
  quiet : InLock pc = false → Quiet mem after
  knows : InsertOk params after key value next
  mutex : (InLock next = InLock pc ∧ after.mtx = mem.mtx) ∨
    (InLock next = true ∧ mem.mtx = none ∧ after.mtx = some op) ∨
    (InLock pc = true ∧ InLock next = false ∧ after.mtx = none)
  settled : InLock pc = true → InLock next = false → Settled after
  values : ∀ slot, Occupied mem slot →
    (after.entry slot).value = (mem.entry slot).value ∨
      ∃ act, pc = .store act slot

theorem Quiet.refl (mem : Memory Key Value Op) : Quiet mem mem :=
  ⟨⟨⟨fun _ => rfl, fun _ _ => rfl, fun _ member => member⟩, rfl, rfl, rfl⟩,
    fun _ _ => rfl⟩

section Insert

variable {offered : Key → Value → Prop} {op : Op} {pc next : Pc Value}

/-- A step that only moves on. -/
theorem StepOk.still (ok : TableOk params offered mem)
    (knows : InsertOk params mem key value next)
    (same : InLock next = InLock pc) :
    StepOk params offered op key value mem pc mem next :=
  ⟨ok, Extends.refl mem, fun _ => Quiet.refl mem, knows,
    Or.inl ⟨same, rfl⟩,
    fun held released => absurd (same.symm.trans released)
      (held ▸ Bool.false_ne_true.symm),
    fun _ _ => Or.inl rfl⟩

/-- A step under the mutex that keeps the occupied slots. -/
theorem StepOk.inside (ok : TableOk params offered after)
    (extend : Extends mem after)
    (knows : InsertOk params after key value next)
    (held : InLock pc = true) (holds : InLock next = true)
    (mutex : after.mtx = mem.mtx)
    (same : ∀ slot, Occupied mem slot →
      (after.entry slot).value = (mem.entry slot).value) :
    StepOk params offered op key value mem pc after next :=
  ⟨ok, extend, fun outside => absurd (held.symm.trans outside)
      Bool.false_ne_true.symm, knows,
    Or.inl ⟨holds.trans held.symm, mutex⟩,
    fun _ released => absurd (holds.symm.trans released)
      Bool.false_ne_true.symm,
    fun slot occupied => Or.inl (same slot occupied)⟩

/-- A scan outside the mutex. -/
theorem scanStep_optimistic {i : Nat}
    (knows : InsertOk params mem key value (.scan .optimistic (.table i))) :
    InsertOk params mem key value
        (scanStep params key mem .optimistic (.table i)) ∧
      InLock (scanStep params key mem .optimistic (.table i) : Pc Value) =
        false := by
  rcases knows with ⟨start, stop⟩
  unfold scanStep
  dsimp only
  split
  next inside =>
    split
    next occupied => exact ⟨⟨occupied, start, inside⟩, rfl⟩
    next => exact ⟨⟨Nat.le_succ_of_le start, inside⟩, rfl⟩
  next => exact ⟨trivial, rfl⟩

/-- A scan of the chain under the mutex. -/
theorem scanStep_table {i : Nat}
    (knows : InsertOk params mem key value (.scan .locked (.table i))) :
    InsertOk params mem key value
        (scanStep params key mem .locked (.table i)) ∧
      InLock (scanStep params key mem .locked (.table i) : Pc Value) = true := by
  rcases knows with ⟨settled, ⟨start, stop⟩, behind⟩
  unfold scanStep
  dsimp only
  split
  next inside =>
    split
    next occupied =>
      exact ⟨⟨settled, occupied, ⟨start, inside⟩, behind⟩, rfl⟩
    next free =>
      exact ⟨⟨⟨settled, trivial⟩, ⟨start, inside⟩, free, behind⟩, rfl⟩
  next outside =>
    have all : i = params.endIdx key := le_antisymm stop (not_lt.mp outside)
    exact ⟨⟨rfl, settled, all ▸ behind⟩, rfl⟩

/-- A scan of the backup buckets under the mutex. -/
theorem scanStep_backup {nBuckets bucket i : Nat}
    (knows : InsertOk params mem key value
      (.scan .locked (.backup nBuckets bucket i))) :
    InsertOk params mem key value
        (scanStep params key mem .locked (.backup nBuckets bucket i)) ∧
      InLock (scanStep params key mem .locked (.backup nBuckets bucket i) :
        Pc Value) = true := by
  rcases knows with ⟨settled, loaded, ⟨bounded, full⟩, behind⟩
  unfold scanStep
  dsimp only
  split
  next within =>
    split
    next inside =>
      split
      next occupied =>
        exact ⟨⟨settled, occupied, loaded, within, inside, behind⟩, rfl⟩
      next free =>
        exact ⟨⟨⟨settled, lt_of_lt_of_eq within loaded⟩, inside, free,
          behind⟩, rfl⟩
    next outside =>
      have all : i = bucketCapacity bucket :=
        le_antisymm full (not_lt.mp outside)
      refine ⟨⟨settled, loaded, ⟨within, Nat.zero_le _⟩, ?_⟩, rfl⟩
      rw [rank_bucket, ← all]
      exact behind
  next beyond =>
    have last : bucket = nBuckets := le_antisymm bounded (not_lt.mp beyond)
    refine ⟨⟨settled, loaded, behind.mono ?_⟩, rfl⟩
    rw [last, rank_backup, rank_backup]
    omega

/-- The comparison with the key of an occupied slot. -/
theorem compareStep_optimistic {i : Nat}
    (knows : InsertOk params mem key value
      (.compare .optimistic (.table i))) :
    InsertOk params mem key value
        (compareStep params key mem .optimistic (.table i)) ∧
      InLock (compareStep params key mem .optimistic (.table i) : Pc Value) =
        false := by
  rcases knows with ⟨occupied, start, inside⟩
  unfold compareStep
  split
  next equal =>
    refine ⟨⟨nofun, nofun, ⟨occupied, equal⟩, trivial⟩, rfl⟩
  next => exact ⟨⟨Nat.le_succ_of_le start, inside⟩, rfl⟩

theorem compareStep_locked {cursor : Cursor}
    (knows : InsertOk params mem key value (.compare .locked cursor)) :
    InsertOk params mem key value
        (compareStep params key mem .locked cursor) ∧
      InLock (compareStep params key mem .locked cursor : Pc Value) = true := by
  unfold compareStep
  cases cursor with
  | table i =>
      rcases knows with ⟨settled, occupied, visits, behind⟩
      split
      next equal =>
        exact ⟨⟨nofun, fun _ => settled, ⟨occupied, equal⟩, trivial⟩, rfl⟩
      next other =>
        have here : Behind params mem key (rank params key (.table i)) :=
          behind
        exact ⟨⟨settled, ⟨Nat.le_succ_of_le visits.1, visits.2⟩,
          here.next visits occupied other⟩, rfl⟩
  | backup nBuckets bucket i =>
      rcases knows with ⟨settled, occupied, loaded, within, visits, behind⟩
      split
      next equal =>
        exact ⟨⟨nofun, fun _ => settled, ⟨occupied, equal⟩,
          lt_of_lt_of_eq within loaded⟩, rfl⟩
      next other =>
        refine ⟨⟨settled, loaded, ⟨le_of_lt within, visits⟩, ?_⟩, rfl⟩
        change Behind params mem key
          (rank params key (Cursor.backup nBuckets bucket i).next.slot)
        rw [rank_next]
        exact behind.next visits occupied other

/-- An insert whose key has its value. -/
theorem updated_ok {act : Activity} {slot : Slot} (inserts : act ≠ .query)
    (settled : act = .locked → Settled mem)
    (holds : Holds params mem slot key) (visible : Visible mem slot) :
    InsertOk params mem key value (updated act slot value) ∧
      InLock (updated act slot value) = decide (act = .locked) := by
  cases act with
  | query => exact absurd rfl inserts
  | optimistic => exact ⟨Or.inr ⟨slot, holds, visible⟩, rfl⟩
  | locked => exact ⟨⟨rfl, settled rfl, holds, visible⟩, rfl⟩

/-- A step that leaves all but values and the sink as they were. -/
theorem StepOk.quietly (ok : TableOk params offered after)
    (quiet : Quiet mem after) (knows : InsertOk params after key value next)
    (same : InLock next = InLock pc) (mutex : after.mtx = mem.mtx)
    (values : ∀ slot, Occupied mem slot →
      (after.entry slot).value = (mem.entry slot).value ∨
        ∃ act, pc = .store act slot) :
    StepOk params offered op key value mem pc after next :=
  ⟨ok, quiet.toSteady.extend, fun _ => quiet, knows, Or.inl ⟨same, mutex⟩,
    fun held released => absurd (same.symm.trans released)
      (held ▸ Bool.false_ne_true.symm), values⟩

theorem quiet_sinkCollect (mem : Memory Key Value Op) (value : Value) :
    Quiet mem (mem.sinkCollect value) :=
  ⟨steady_sinkCollect mem value, fun _ _ => rfl⟩

theorem mem_sinkCollect (mem : Memory Key Value Op) (value : Value) :
    value ∈ (mem.sinkCollect value).valueSink :=
  List.mem_append_right _ List.mem_cons_self

theorem TableOk.sinkCollect (ok : TableOk params offered mem)
    (value : Value) : TableOk params offered (mem.sinkCollect value) :=
  ok.sameKeys (steady_sinkCollect mem value).toSameKeys (fun _ _ => rfl)
    fun slot found here => List.mem_append_left _ (ok.watched slot found here)

/-- The mutex is taken or given back. -/
theorem quiet_mtx (mem : Memory Key Value Op) (mtx : Option Op) :
    Quiet mem { mem with mtx := mtx } :=
  ⟨⟨⟨fun _ => rfl, fun _ _ => rfl, fun _ member => member⟩, rfl, rfl, rfl⟩,
    fun _ _ => rfl⟩

theorem TableOk.mtx (ok : TableOk params offered mem) (mtx : Option Op) :
    TableOk params offered { mem with mtx := mtx } :=
  ok.sameKeys (quiet_mtx mem mtx).toSameKeys (fun _ _ => rfl) ok.watched

theorem lock_ok (ok : TableOk params offered mem)
    (free : mem.mtx = none) (settled : Settled mem) :
    StepOk params offered op key value mem .lock
      { mem with mtx := some op }
      (.scan .locked (.table (params.startIdx key))) := by
  have quiet := quiet_mtx mem (some op)
  refine ⟨ok.mtx _, quiet.toSteady.extend, fun _ => quiet, ?_, ?_, nofun,
    fun _ _ => Or.inl rfl⟩
  · exact ⟨quiet.toSteady.settled settled,
      ⟨le_refl _, startIdx_le_endIdx params key⟩,
      quiet.toSteady.behind (behind_start mem key)⟩
  · exact Or.inr (Or.inl ⟨rfl, free, rfl⟩)

theorem unlock_ok (ok : TableOk params offered mem) {result : Option Value}
    (knows : InsertOk params mem key value (.unlock result)) :
    StepOk params offered op key value mem (.unlock result)
      { mem with mtx := none } (.returned result) := by
  have quiet := quiet_mtx mem none
  exact ⟨ok.mtx _, quiet.toSteady.extend, nofun,
    quiet.toSteady.extend.served knows.2, Or.inr (Or.inr ⟨rfl, rfl, rfl⟩),
    fun _ _ => quiet.toSteady.settled knows.1, fun _ _ => Or.inl rfl⟩

theorem store_ok [DecidableEq Value] (ok : TableOk params offered mem)
    {act : Activity} {slot : Slot}
    (knows : InsertOk params mem key value (.store act slot))
    (own : ∀ stored, params.keyComparator stored key = true →
      offered stored value) :
    StepOk params offered op key value mem (.store act slot)
      (mem.setEntry slot { mem.entry slot with value := some value })
      (updated act slot value) := by
  rcases knows with ⟨inserts, settled, holds, visible, watched⟩
  rcases ok.store holds own watched with ⟨table, quiet⟩
  have extend := quiet.toSteady.extend
  have done := @updated_ok _ _ _ _ _ _ value _ _ inserts
    (fun locked => quiet.toSteady.settled (settled locked))
    (extend.holds holds) (extend.visible visible)
  refine StepOk.quietly table quiet done.1 done.2 rfl ?_
  intro other occupied
  by_cases same : other = slot
  · exact Or.inr ⟨act, congrArg (Pc.store act) same.symm⟩
  · rw [entry_setEntry_of_ne mem same]
    exact Or.inl rfl

/-! ### A new bucket -/

/-- No key is in a bucket that is not available. -/
theorem sameKeys_resize {nBuckets : Nat} (settled : Settled mem)
    (last : nBuckets = mem.nAvailBuckets) (size : Nat) :
    SameKeys mem (mem.resize nBuckets size) ∧
      ∀ slot, Occupied mem slot →
        (mem.resize nBuckets size).entry slot = mem.entry slot := by
  have empty : ∀ i, ¬ Occupied mem (.backup nBuckets i) := by
    intro i occupied
    exact absurd (settled.filled nBuckets i occupied)
      (not_lt.mpr (le_of_eq last.symm))
  have kept : ∀ slot, Occupied mem slot →
      (mem.resize nBuckets size).entry slot = mem.entry slot := by
    intro slot occupied
    cases slot with
    | table i => rfl
    | backup bucket i =>
        refine if_neg ?_
        rintro rfl
        exact empty i occupied
  refine ⟨⟨?_, fun slot occupied => congrArg Entry.key (kept slot occupied),
    fun _ member => member⟩, kept⟩
  intro slot
  cases slot with
  | table i => rfl
  | backup bucket i =>
      by_cases same : bucket = nBuckets
      · subst bucket
        rw [Bool.eq_false_of_not_eq_true (empty i)]
        exact congrArg Entry.isOccupied (if_pos rfl)
      · exact congrArg Entry.isOccupied (if_neg same)

theorem resize_ok (ok : TableOk params offered mem) {nBuckets size : Nat}
    (knows : InsertOk params mem key value (.resize nBuckets size)) :
    StepOk params offered op key value mem (.resize nBuckets size)
      (mem.resize nBuckets size) (.clear nBuckets 0 size) := by
  rcases knows with ⟨settled, last, sized, behind⟩
  rcases sameKeys_resize settled last size with ⟨keys, kept⟩
  have watched : ∀ slot value,
      ((mem.resize nBuckets size).entry slot).value = some value →
        value ∈ mem.valueSink := by
    intro slot found here
    cases slot with
    | table i => exact ok.watched (.table i) found here
    | backup bucket i =>
        unfold Memory.resize at here
        dsimp only at here
        split at here
        · cases here
        · exact ok.watched (.backup bucket i) found here
  refine StepOk.inside (ok.sameKeys keys kept watched)
    (keys.extend (le_refl _)) ⟨last, sized, ⟨?_, ?_, ?_⟩, keys.behind behind⟩
    rfl rfl rfl
    fun slot occupied => congrArg Entry.value (kept slot occupied)
  · intro bucket
    change Function.update mem.backupSize nBuckets size bucket = _
    by_cases same : bucket = nBuckets
    · rw [same, Function.update_self, if_pos (Nat.lt_succ_self _), sized]
    · rw [Function.update_of_ne same, settled.backupSize bucket, ← last]
      refine if_congr ?_ rfl rfl
      omega
  · exact settled.nextBucketSize.trans (congrArg bucketCapacity last.symm)
  · intro bucket i occupied
    rw [last]
    exact settled.filled bucket i ((keys.occupied_iff _).mp occupied)

theorem storeNextSize_ok (ok : TableOk params offered mem)
    {nBuckets size : Nat}
    (knows : InsertOk params mem key value (.storeNextSize nBuckets size)) :
    StepOk params offered op key value mem (.storeNextSize nBuckets size)
      { mem with nextBucketSize := size * 2 } (.storeCount nBuckets) := by
  rcases knows with ⟨last, sized, laid, holds⟩
  have keys : SameKeys mem { mem with nextBucketSize := size * 2 } :=
    ⟨fun _ => rfl, fun _ _ => rfl, fun _ member => member⟩
  refine StepOk.inside (ok.sameKeys keys (fun _ _ => rfl) ok.watched)
    (keys.extend (le_refl _)) ⟨last, ⟨laid.backupSize, ?_, laid.filled⟩,
      holds⟩ rfl rfl rfl fun _ _ => rfl
  rw [bucketCapacity_succ, ← sized]
  exact Nat.mul_comm size 2

theorem storeCount_ok (ok : TableOk params offered mem) {nBuckets : Nat}
    (knows : InsertOk params mem key value (.storeCount nBuckets)) :
    StepOk params offered op key value mem (.storeCount nBuckets)
      { mem with nAvailBuckets := nBuckets + 1 }
      (.readValue .locked (.backup nBuckets 0)) := by
  rcases knows with ⟨last, laid, holds⟩
  have keys : SameKeys mem { mem with nAvailBuckets := nBuckets + 1 } :=
    ⟨fun _ => rfl, fun _ _ => rfl, fun _ member => member⟩
  have count : mem.nAvailBuckets ≤ nBuckets + 1 := by omega
  exact StepOk.inside (ok.sameKeys keys (fun _ _ => rfl) ok.watched)
    (keys.extend count)
    ⟨rfl, ⟨laid.backupSize, laid.nextBucketSize, laid.filled⟩, holds,
      Nat.lt_succ_self nBuckets⟩ rfl rfl rfl fun _ _ => rfl

/-! ### A new entry -/

/-- A write into the slot that an insert is about to fill. -/
theorem freeWrite_ok (ok : TableOk params offered mem) {slot : Slot}
    {fresh : Option (Nat × Nat)} (claims : Claims params mem key slot fresh)
    {entry : Entry Key Value} (still : entry.isOccupied = false)
    (watched : ∀ value, entry.value = some value → value ∈ mem.valueSink)
    (held : InLock pc = true) (holds : InLock next = true)
    (knows : Claims params (mem.setEntry slot entry) key slot fresh →
      InsertOk params (mem.setEntry slot entry) key value next) :
    StepOk params offered op key value mem pc (mem.setEntry slot entry)
      next := by
  have free : ¬ Occupied mem slot := claims.2.2.1
  rcases ok.setFree free still watched with ⟨table, steady⟩
  refine StepOk.inside table steady.extend (knows (steady.claims claims))
    held holds rfl ?_
  intro other occupied
  rw [entry_setEntry_of_ne mem]
  rintro rfl
  exact free occupied

theorem clear_ok (ok : TableOk params offered mem) {nBuckets i size : Nat}
    (knows : InsertOk params mem key value (.clear nBuckets i size)) :
    StepOk params offered op key value mem (.clear nBuckets i size)
      (mem.setEntry (.backup nBuckets i)
        { mem.entry (.backup nBuckets i) with isOccupied := false })
      (.clear nBuckets (i + 1) size) := by
  rcases knows with ⟨last, sized, laid, behind⟩
  have free : ¬ Occupied mem (.backup nBuckets i) := fun occupied =>
    absurd (laid.filled nBuckets i occupied) (Nat.lt_irrefl _)
  have still : ({ mem.entry (.backup nBuckets i) with
      isOccupied := false } : Entry Key Value).isOccupied = false := rfl
  rcases ok.setFree free still (ok.watched _) with ⟨table, steady⟩
  refine StepOk.inside table steady.extend
    ⟨last, sized, steady.laid laid, steady.behind behind⟩ rfl rfl rfl ?_
  intro other occupied
  rw [entry_setEntry_of_ne mem]
  rintro rfl
  exact free occupied

/-- All entries of the new bucket are free. -/
theorem clear_done {nBuckets i size : Nat}
    (knows : InsertOk params mem key value (.clear nBuckets i size)) :
    InsertOk params mem key value
      (.watchNew (.backup nBuckets 0) (some (nBuckets, size))) := by
  rcases knows with ⟨last, sized, laid, behind⟩
  refine ⟨⟨rfl, last, sized, laid⟩, ?_, ?_, behind⟩
  · exact lt_of_lt_of_le (by decide) (baseBucketSize_le nBuckets)
  · intro occupied
    exact absurd (laid.filled nBuckets 0 occupied) (Nat.lt_irrefl _)

theorem writeKey_ok (ok : TableOk params offered mem) {slot : Slot}
    {fresh : Option (Nat × Nat)}
    (knows : InsertOk params mem key value (.writeKey slot fresh)) :
    StepOk params offered op key value mem (.writeKey slot fresh)
      (mem.setEntry slot { mem.entry slot with key := some key })
      (.writeValue slot fresh) := by
  rcases knows with ⟨claims, watched⟩
  refine freeWrite_ok ok claims (Bool.eq_false_of_not_eq_true claims.2.2.1)
    (ok.watched slot) rfl rfl fun claims => ⟨claims, watched, ?_⟩
  rw [entry_setEntry_self]

theorem writeValue_ok (ok : TableOk params offered mem) {slot : Slot}
    {fresh : Option (Nat × Nat)}
    (knows : InsertOk params mem key value (.writeValue slot fresh)) :
    StepOk params offered op key value mem (.writeValue slot fresh)
      (mem.setEntry slot { mem.entry slot with value := some value })
      (.writeFree slot fresh) := by
  rcases knows with ⟨claims, watched, wroteKey⟩
  refine freeWrite_ok ok claims (Bool.eq_false_of_not_eq_true claims.2.2.1)
    ?_ rfl rfl fun claims => ⟨claims, watched, ?_, ?_⟩
  · rintro found ⟨⟩
    exact watched
  · rw [entry_setEntry_self]
    exact wroteKey
  · rw [entry_setEntry_self]

theorem writeFree_ok (ok : TableOk params offered mem) {slot : Slot}
    {fresh : Option (Nat × Nat)}
    (knows : InsertOk params mem key value (.writeFree slot fresh)) :
    StepOk params offered op key value mem (.writeFree slot fresh)
      (mem.setEntry slot { mem.entry slot with isOccupied := false })
      (.occupy slot fresh) := by
  rcases knows with ⟨claims, watched, wroteKey, wroteValue⟩
  refine freeWrite_ok ok claims rfl (ok.watched slot) rfl rfl
    fun claims => ⟨claims, watched, ?_, ?_⟩
  · rw [entry_setEntry_self]
    exact wroteKey
  · rw [entry_setEntry_self]
    exact wroteValue

/-- The slot becomes visible with its key and its value. -/
theorem occupy_ok [DecidableEq Value] (lawful : params.Lawful)
    (ok : TableOk params offered mem) {slot : Slot}
    {fresh : Option (Nat × Nat)}
    (knows : InsertOk params mem key value (.occupy slot fresh))
    (own : offered key value) :
    StepOk params offered op key value mem (.occupy slot fresh)
      (mem.setEntry slot { mem.entry slot with isOccupied := true })
      (insertStep params op key value mem (.occupy slot fresh)).2 := by
  rcases knows with ⟨⟨place, visits, free, behind⟩, -, wroteKey, wroteValue⟩
  rcases ok.occupy lawful visits free behind wroteKey wroteValue own with
    ⟨table, extend⟩
  have holds : Holds params (mem.setEntry slot
      { mem.entry slot with isOccupied := true }) slot key := by
    unfold Holds Occupied keyMatches
    rw [entry_setEntry_self]
    dsimp only
    rw [wroteKey]
    exact ⟨rfl, lawful.refl key⟩
  have kept : ∀ other, Occupied mem other →
      ((mem.setEntry slot { mem.entry slot with isOccupied := true }).entry
        other).value = (mem.entry other).value := by
    intro other occupied
    rw [entry_setEntry_of_ne mem]
    rintro rfl
    exact free occupied
  have filled : ∀ bucket i, Occupied (mem.setEntry slot
      { mem.entry slot with isOccupied := true }) (.backup bucket i) →
        Slot.backup bucket i = slot ∨ Occupied mem (.backup bucket i) := by
    intro bucket i occupied
    by_cases same : Slot.backup bucket i = slot
    · exact Or.inl same
    · unfold Occupied at occupied
      rw [entry_setEntry_of_ne mem same] at occupied
      exact Or.inr occupied
  cases fresh with
  | none =>
      refine StepOk.inside table extend ⟨rfl, ⟨place.1.backupSize,
        place.1.nextBucketSize, ?_⟩, holds, ?_⟩ rfl rfl rfl kept
      · intro bucket i occupied
        rcases filled bucket i occupied with rfl | before
        · exact place.2
        · exact place.1.filled bucket i before
      · cases slot with
        | table i => trivial
        | backup bucket i => exact place.2
  | some bucket =>
      rcases bucket with ⟨nBuckets, size⟩
      rcases place with ⟨rfl, last, sized, laid⟩
      refine StepOk.inside table extend ⟨last, sized, ⟨laid.backupSize,
        laid.nextBucketSize, ?_⟩, holds⟩ rfl rfl rfl kept
      intro bucket i occupied
      rcases filled bucket i occupied with same | before
      · cases same
        exact Nat.lt_succ_self _
      · exact Nat.lt_succ_of_lt (laid.filled bucket i before)

/-- Every step of an insert. -/
theorem insertStep_ok [DecidableEq Value] (lawful : params.Lawful)
    (ok : TableOk params offered mem)
    (knows : InsertOk params mem key value pc)
    (own : ∀ stored, params.keyComparator stored key = true →
      offered stored value)
    (settled : mem.mtx = none → Settled mem) :
    StepOk params offered op key value mem pc
      (insertStep params op key value mem pc).1
      (insertStep params op key value mem pc).2 := by
  cases pc with
  | idle =>
      exact StepOk.still ok
        ⟨le_refl _, startIdx_le_endIdx params key⟩ rfl
  | scan act cursor =>
      cases act with
      | query => cases cursor <;> exact knows.elim
      | optimistic =>
          cases cursor with
          | backup => exact knows.elim
          | table i =>
              have next := scanStep_optimistic knows
              exact StepOk.still ok next.1 next.2
      | locked =>
          cases cursor with
          | table i =>
              have next := scanStep_table knows
              exact StepOk.still ok next.1 next.2
          | backup nBuckets bucket i =>
              have next := scanStep_backup knows
              exact StepOk.still ok next.1 next.2
  | compare act cursor =>
      cases act with
      | query => cases cursor <;> exact knows.elim
      | optimistic =>
          cases cursor with
          | backup => exact knows.elim
          | table i =>
              have next := compareStep_optimistic knows
              exact StepOk.still ok next.1 next.2
      | locked =>
          have next := compareStep_locked knows
          exact StepOk.still ok next.1 next.2
  | loadBuckets act =>
      rcases knows with ⟨rfl, rest, behind⟩
      refine StepOk.still ok ⟨rest, rfl, ⟨Nat.zero_le _, Nat.zero_le _⟩, ?_⟩
        rfl
      rw [rank_buckets]
      exact behind
  | check act slot =>
      rcases knows with ⟨inserts, rest, holds, visible⟩
      dsimp only [insertStep]
      split
      · exact StepOk.still ok ⟨inserts, rest, holds, visible⟩ rfl
      · have next := @updated_ok _ _ _ _ _ _ value _ _ inserts rest holds visible
        exact StepOk.still ok next.1 next.2
  | watch act slot =>
      rcases knows with ⟨inserts, rest, holds, visible⟩
      have quiet := quiet_sinkCollect mem value
      have extend := quiet.toSteady.extend
      exact StepOk.quietly (ok.sinkCollect value) quiet
        ⟨inserts, fun locked => quiet.toSteady.settled (rest locked),
          extend.holds holds, extend.visible visible,
          mem_sinkCollect mem value⟩ rfl rfl fun _ _ => Or.inl rfl
  | store act slot => exact store_ok ok knows own
  | readValue act slot =>
      rcases knows with ⟨rfl, rest, holds, visible⟩
      exact StepOk.still ok ⟨rest, Or.inr ⟨slot, holds, visible⟩⟩ rfl
  | lock =>
      dsimp only [insertStep]
      split
      next free => exact lock_ok ok free (settled free)
      next => exact StepOk.still ok trivial rfl
  | grow nBuckets =>
      rcases knows with ⟨rest, last, behind⟩
      dsimp only [insertStep]
      split
      next full =>
        exact StepOk.still ok ⟨rest, Or.inl (le_of_eq (full.symm.trans last))⟩
          rfl
      next =>
        exact StepOk.still ok ⟨rest, last, rest.nextBucketSize.trans
          (congrArg bucketCapacity last.symm), behind⟩ rfl
  | resize nBuckets size => exact resize_ok ok knows
  | clear nBuckets i size =>
      dsimp only [insertStep]
      split
      · exact clear_ok ok knows
      · exact StepOk.still ok (clear_done knows) rfl
  | watchNew slot fresh =>
      have quiet := quiet_sinkCollect mem value
      exact StepOk.quietly (ok.sinkCollect value) quiet
        ⟨quiet.toSteady.claims knows, mem_sinkCollect mem value⟩ rfl rfl
        fun _ _ => Or.inl rfl
  | writeKey slot fresh => exact writeKey_ok ok knows
  | writeValue slot fresh => exact writeValue_ok ok knows
  | writeFree slot fresh => exact writeFree_ok ok knows
  | occupy slot fresh =>
      exact occupy_ok lawful ok knows (own key (lawful.refl key))
  | storeNextSize nBuckets size => exact storeNextSize_ok ok knows
  | storeCount nBuckets => exact storeCount_ok ok knows
  | unlock result => exact unlock_ok ok knows
  | returned result => exact StepOk.still ok knows rfl

end Insert

end AoclDlp.KernelRegister.DispatchTable
