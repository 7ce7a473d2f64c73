import AoclDlp.KernelRegister.TableSteps

/-!
# Runs of the dispatch table

The invariant of a state says what each operation knows; every step keeps it.
A query that starts behind a returned insert stays ahead of the slot of its key
until it reads it.  While no other insert of an equal key runs, the slot of a
key changes only by the hand of its insert.
-/

namespace AoclDlp.KernelRegister.DispatchTable

open AoclDlp.Foundations.Transition

variable {Key Value Op : Type} {params : Parameters Key}
variable {mem after : Memory Key Value Op} {key : Key} {value : Value}

/-! ## Queries -/

theorem scanStep_query {offered : Key → Value → Prop} {cursor : Cursor}
    (cursorOk : CursorOk params key cursor) :
    QueryOk params offered mem key (scanStep params key mem .query cursor) ∧
      InLock (scanStep params key mem .query cursor : Pc Value) = false := by
  unfold scanStep
  cases cursor with
  | table i =>
      rcases cursorOk with ⟨start, stop⟩
      dsimp only
      split
      next inside =>
        split
        next occupied => exact ⟨⟨rfl, occupied, ⟨start, inside⟩, start, stop⟩, rfl⟩
        next => exact ⟨⟨rfl, Nat.le_succ_of_le start, inside⟩, rfl⟩
      next => exact ⟨rfl, rfl⟩
  | backup nBuckets bucket i =>
      rcases cursorOk with ⟨bounded, full⟩
      dsimp only
      split
      next within =>
        split
        next inside =>
          split
          next occupied =>
            exact ⟨⟨rfl, occupied, inside, bounded, full⟩, rfl⟩
          next => exact ⟨⟨rfl, bounded, inside⟩, rfl⟩
        next => exact ⟨⟨rfl, within, Nat.zero_le _⟩, rfl⟩
      next => exact ⟨nofun, rfl⟩

theorem compareStep_query {offered : Key → Value → Prop} {cursor : Cursor}
    (occupied : Occupied mem cursor.slot)
    (visits : Visits params key cursor.slot)
    (cursorOk : CursorOk params key cursor) :
    QueryOk params offered mem key
        (compareStep params key mem .query cursor) ∧
      InLock (compareStep params key mem .query cursor : Pc Value) = false := by
  unfold compareStep
  split
  next equal => exact ⟨⟨rfl, occupied, equal⟩, rfl⟩
  next =>
    cases cursor with
    | table i =>
        exact ⟨⟨rfl, Nat.le_succ_of_le visits.1, visits.2⟩, rfl⟩
    | backup nBuckets bucket i => exact ⟨⟨rfl, cursorOk.1, visits⟩, rfl⟩

variable (params) in
/-- The value was passed to an insert of an equal key that has begun. -/
def Offered (call : Op → Call Key Value) (Begun : Op → Prop) (key : Key)
    (value : Value) : Prop :=
  ∃ op other, call op = .insert (some other) (some value) ∧
    params.keyComparator key other = true ∧ Begun op

theorem Offered.congr (lawful : params.Lawful) {call : Op → Call Key Value}
    {Begun : Op → Prop} {stored : Key}
    (offered : Offered params call Begun stored value)
    (equal : params.keyComparator stored key = true) :
    Offered params call Begun key value := by
  rcases offered with ⟨op, other, inserts, same, begun⟩
  exact ⟨op, other, inserts,
    lawful.trans _ _ _ (lawful.symm _ _ equal) same, begun⟩

/-- Every step of a query. -/
theorem queryStep_ok (lawful : params.Lawful)
    {call : Op → Call Key Value} {Begun : Op → Prop} {pc : Pc Value}
    (ok : TableOk params (Offered params call Begun) mem)
    (knows : QueryOk params (Offered params call Begun) mem key pc) :
    QueryOk params (Offered params call Begun) mem key
        (queryStep params key mem pc) ∧
      InLock (queryStep params key mem pc) = false := by
  cases pc with
  | idle =>
      exact ⟨⟨rfl, le_refl _, startIdx_le_endIdx params key⟩, rfl⟩
  | scan act cursor =>
      rcases knows with ⟨rfl, cursorOk⟩
      exact scanStep_query cursorOk
  | compare act cursor =>
      rcases knows with ⟨rfl, occupied, visits, cursorOk⟩
      exact compareStep_query occupied visits cursorOk
  | loadBuckets act =>
      cases knows
      exact ⟨⟨rfl, Nat.zero_le _, Nat.zero_le _⟩, rfl⟩
  | readValue act slot =>
      rcases knows with ⟨-, holds⟩
      refine ⟨?_, rfl⟩
      intro value found
      rcases holds.exists_key with ⟨stored, here, equal⟩
      rcases ok.entry slot holds.1 with ⟨own, kept, entry, -, offered⟩
      rw [entry] at here found
      cases here
      cases found
      exact offered.congr lawful equal
  | returned result => exact ⟨knows, rfl⟩
  | _ => exact knows.elim

/-- A query never has the mutex. -/
theorem QueryOk.outside {offered : Key → Value → Prop} {pc : Pc Value}
    (knows : QueryOk params offered mem key pc) : InLock pc = false := by
  cases pc with
  | idle | returned => rfl
  | scan act | compare act | readValue act =>
      rcases knows with ⟨rfl, -⟩
      rfl
  | loadBuckets act =>
      cases knows
      rfl
  | _ => exact knows.elim

/-! ## The invariant of a state -/

variable (params) in
/-- What an operation knows, by its call. -/
def ThreadOk (offered : Key → Value → Prop) (mem : Memory Key Value Op) :
    Call Key Value → Pc Value → Prop
  | .insert (some key) (some value), pc => InsertOk params mem key value pc
  | .query (some key), pc => QueryOk params offered mem key pc
  | _, pc => pc = .idle ∨ pc = .returned none

/-- An operation that has taken a step. -/
def Begun (state : State Key Value Op) (op : Op) : Prop :=
  state.pc op ≠ .idle

variable (params) in
/-- The invariant of the reachable states. -/
structure Inv (call : Op → Call Key Value) (state : State Key Value Op) :
    Prop where
  table : TableOk params (Offered params call (Begun state)) state.mem
  threads : ∀ op, ThreadOk params (Offered params call (Begun state))
    state.mem (call op) (state.pc op)
  mutex : ∀ op, InLock (state.pc op) = true ↔ state.mem.mtx = some op
  settled : state.mem.mtx = none → Settled state.mem

/-- A step ahead of the first one does not lead back to it. -/
theorem scanStep_ne_idle (act : Activity) (cursor : Cursor) :
    (scanStep params key mem act cursor : Pc Value) ≠ .idle := by
  unfold scanStep
  cases cursor with
  | table i => dsimp only; split_ifs <;> nofun
  | backup nBuckets bucket i => dsimp only; split_ifs <;> nofun

theorem compareStep_ne_idle (act : Activity) (cursor : Cursor) :
    (compareStep params key mem act cursor : Pc Value) ≠ .idle := by
  unfold compareStep
  split_ifs <;> nofun

theorem updated_ne_idle (act : Activity) (slot : Slot) :
    updated act slot value ≠ .idle := by
  unfold updated
  split_ifs <;> nofun

theorem execute_ne_idle [DecidableEq Value] (op : Op)
    (call : Call Key Value) (mem : Memory Key Value Op) (pc : Pc Value) :
    (execute params op call mem pc).2 ≠ .idle := by
  cases call with
  | query key =>
      cases key with
      | none => exact nofun
      | some key =>
          cases pc with
          | scan act cursor => exact scanStep_ne_idle act cursor
          | compare act cursor => exact compareStep_ne_idle act cursor
          | _ => exact nofun
  | insert key value =>
      cases key with
      | none => exact nofun
      | some key =>
          cases value with
          | none => exact nofun
          | some value =>
              cases pc with
              | scan act cursor => exact scanStep_ne_idle act cursor
              | compare act cursor => exact compareStep_ne_idle act cursor
              | store act slot => exact updated_ne_idle act slot
              | check act slot =>
                  dsimp only [execute, insertStep]
                  split
                  · exact nofun
                  · exact updated_ne_idle act slot
              | lock =>
                  dsimp only [execute, insertStep]
                  split <;> exact nofun
              | grow nBuckets =>
                  dsimp only [execute, insertStep]
                  split <;> exact nofun
              | clear nBuckets i size =>
                  dsimp only [execute, insertStep]
                  split <;> exact nofun
              | occupy slot fresh =>
                  dsimp only [execute, insertStep]
                  split <;> exact nofun
              | _ => exact nofun

/-- What a step leaves as it was, whatever it is a step of. -/
structure Frame (op : Op) (mem : Memory Key Value Op) (pc : Pc Value)
    (after : Memory Key Value Op) (next : Pc Value) : Prop where
  extend : Extends mem after
  quiet : InLock pc = false → Quiet mem after
  mutex : (InLock next = InLock pc ∧ after.mtx = mem.mtx) ∨
    (InLock next = true ∧ mem.mtx = none ∧ after.mtx = some op) ∨
    (InLock pc = true ∧ InLock next = false ∧ after.mtx = none)
  settled : InLock pc = true → InLock next = false → Settled after

theorem Frame.still {op : Op} {pc next : Pc Value}
    (outside : InLock pc = false) (stays : InLock next = false) :
    Frame op mem pc mem next :=
  ⟨Extends.refl mem, fun _ => Quiet.refl mem,
    Or.inl ⟨stays.trans outside.symm, rfl⟩,
    fun held => absurd (held.symm.trans outside) Bool.false_ne_true.symm⟩

theorem StepOk.frame {offered : Key → Value → Prop} {op : Op}
    {pc next : Pc Value}
    (ok : StepOk params offered op key value mem pc after next) :
    Frame op mem pc after next :=
  ⟨ok.extend, ok.quiet, ok.mutex, ok.settled⟩

section Machine

variable [DecidableEq Value] [DecidableEq Op]
variable {call : Op → Call Key Value} {state : State Key Value Op}

theorem pc_perform_self (op : Op) :
    (perform params call op state).pc op =
      (execute params op (call op) state.mem (state.pc op)).2 :=
  Function.update_self ..

theorem pc_perform_of_ne {op other : Op} (apart : other ≠ op) :
    (perform params call op state).pc other = state.pc other :=
  Function.update_of_ne apart ..

theorem begun_perform {op other : Op} (begun : Begun state other) :
    Begun (perform params call op state) other := by
  unfold Begun
  by_cases same : other = op
  · subst other
    rw [pc_perform_self]
    exact execute_ne_idle op (call op) state.mem (state.pc op)
  · rw [pc_perform_of_ne same]
    exact begun

theorem begun_perform_self (op : Op) :
    Begun (perform params call op state) op := by
  unfold Begun
  rw [pc_perform_self]
  exact execute_ne_idle op (call op) state.mem (state.pc op)

theorem offered_perform (op : Op) {key : Key} {value : Value}
    (offered : Offered params call (Begun state) key value) :
    Offered params call (Begun (perform params call op state)) key
      value := by
  rcases offered with ⟨other, inserted, inserts, same, begun⟩
  exact ⟨other, inserted, inserts, same, begun_perform begun⟩

omit [DecidableEq Value] [DecidableEq Op] in
theorem TableOk.offers {offered supplied : Key → Value → Prop}
    (ok : TableOk params offered mem)
    (more : ∀ key value, offered key value → supplied key value) :
    TableOk params supplied mem := by
  refine ⟨?_, ok.packed, ok.unique, ok.watched⟩
  intro slot occupied
  rcases ok.entry slot occupied with ⟨key, value, entry, visits, offers⟩
  exact ⟨key, value, entry, visits, more key value offers⟩

/-- The step of an insert with a key and a value. -/
theorem insert_ok (lawful : params.Lawful) (inv : Inv params call state)
    {op : Op} {key : Key} {value : Value}
    (inserts : call op = .insert (some key) (some value)) :
    StepOk params
      (Offered params call (Begun (perform params call op state))) op key
      value state.mem (state.pc op)
      (insertStep params op key value state.mem (state.pc op)).1
      (insertStep params op key value state.mem (state.pc op)).2 := by
  have knows := inv.threads op
  rw [inserts] at knows
  refine insertStep_ok lawful
    (inv.table.offers fun _ _ => offered_perform op) knows ?_ inv.settled
  intro stored equal
  exact ⟨op, key, inserts, equal, begun_perform_self op⟩

/-- What the step of an operation does to the table and to itself. -/
theorem execute_ok (lawful : params.Lawful) (inv : Inv params call state)
    (op : Op) :
    TableOk params (Offered params call (Begun (perform params call op state)))
      (execute params op (call op) state.mem (state.pc op)).1 ∧
    ThreadOk params
      (Offered params call (Begun (perform params call op state)))
      (execute params op (call op) state.mem (state.pc op)).1 (call op)
      (execute params op (call op) state.mem (state.pc op)).2 ∧
    Frame op state.mem (state.pc op)
      (execute params op (call op) state.mem (state.pc op)).1
      (execute params op (call op) state.mem (state.pc op)).2 := by
  have table := inv.table.offers fun _ _ offered =>
    offered_perform op offered
  have knows := inv.threads op
  have refused : state.pc op = .idle ∨ state.pc op = .returned none →
      Frame op state.mem (state.pc op) state.mem (.returned none) := by
    intro rests
    refine Frame.still ?_ rfl
    rcases rests with start | done
    · rw [start]
      rfl
    · rw [done]
      rfl
  generalize asks : call op = asked at knows ⊢
  cases asked with
  | query key =>
      cases key with
      | none => exact ⟨table, Or.inr rfl, refused knows⟩
      | some key =>
          have same := QueryOk.extend knows (Extends.refl state.mem)
            fun _ _ => offered_perform op
          have next := queryStep_ok lawful table same
          exact ⟨table, next.1, Frame.still (QueryOk.outside knows) next.2⟩
  | insert key value =>
      cases key with
      | none => exact ⟨table, Or.inr rfl, refused knows⟩
      | some key =>
          cases value with
          | none => exact ⟨table, Or.inr rfl, refused knows⟩
          | some value =>
              have step := insert_ok lawful inv asks
              exact ⟨step.table, step.knows, step.frame⟩

omit [DecidableEq Value] in
/-- Only the operation with the mutex is in its critical section. -/
theorem Frame.mutex_iff {op : Op} {next : Pc Value}
    (frame : Frame op state.mem (state.pc op) after next)
    (mutex : ∀ other,
      InLock (state.pc other) = true ↔ state.mem.mtx = some other)
    (other : Op) :
    InLock (Function.update state.pc op next other) = true ↔
      after.mtx = some other := by
  have own := mutex op
  have theirs := mutex other
  by_cases same : other = op
  · subst other
    rw [Function.update_self]
    rcases frame.mutex with ⟨lock, mtx⟩ | ⟨held, -, mtx⟩ | ⟨-, freed, mtx⟩
    · rw [lock, mtx]
      exact own
    · exact iff_of_true held mtx
    · rw [freed, mtx]
      exact iff_of_false Bool.false_ne_true nofun
  · rw [Function.update_of_ne same]
    rcases frame.mutex with ⟨-, mtx⟩ | ⟨-, free, mtx⟩ | ⟨held, -, mtx⟩
    · rw [mtx]
      exact theirs
    · rw [theirs, free, mtx]
      exact iff_of_false nofun fun found =>
        same (Option.some.inj found).symm
    · rw [theirs, own.mp held, mtx]
      exact iff_of_false (fun found => same (Option.some.inj found).symm)
        nofun

omit [DecidableEq Value] [DecidableEq Op] in
/-- The steps of one operation keep what the others know. -/
theorem ThreadOk.other {offered supplied : Key → Value → Prop} {op : Op}
    {next pc : Pc Value} {asked : Call Key Value}
    (frame : Frame op state.mem (state.pc op) after next)
    (more : ∀ key value, offered key value → supplied key value)
    (alone : InLock (state.pc op) = true → InLock pc = false)
    (knows : ThreadOk params offered state.mem asked pc) :
    ThreadOk params supplied after asked pc := by
  cases asked with
  | query key =>
      cases key with
      | none => exact knows
      | some key => exact QueryOk.extend knows frame.extend more
  | insert key value =>
      cases key with
      | none => exact knows
      | some key =>
          cases value with
          | none => exact knows
          | some value =>
              by_cases held : InLock (state.pc op) = true
              · exact InsertOk.extend knows (alone held) frame.extend
              · exact InsertOk.quiet knows
                  (frame.quiet (Bool.eq_false_of_not_eq_true held))

/-- Every step keeps the invariant. -/
theorem inv_perform (lawful : params.Lawful) (inv : Inv params call state)
    (op : Op) : Inv params call (perform params call op state) := by
  rcases execute_ok lawful inv op with ⟨table, own, frame⟩
  refine ⟨table, ?_, frame.mutex_iff inv.mutex, ?_⟩
  · intro other
    by_cases same : other = op
    · subst other
      rw [pc_perform_self]
      exact own
    · rw [pc_perform_of_ne same]
      refine ThreadOk.other frame (fun _ _ => offered_perform op) ?_
        (inv.threads other)
      intro held
      refine Bool.eq_false_of_not_eq_true fun also => same ?_
      have mine := (inv.mutex op).mp held
      rw [(inv.mutex other).mp also] at mine
      exact Option.some.inj mine
  · intro free
    rcases frame.mutex with ⟨-, mtx⟩ | ⟨-, -, mtx⟩ | ⟨held, freed, -⟩
    · have before : state.mem.mtx = none := mtx.symm.trans free
      have outside : InLock (state.pc op) = false := by
        refine Bool.eq_false_of_not_eq_true fun held => ?_
        rw [(inv.mutex op).mp held] at before
        cases before
      exact (frame.quiet outside).toSteady.settled (inv.settled before)
    · exact absurd (mtx.symm.trans free) nofun
    · exact frame.settled held freed

omit [DecidableEq Value] [DecidableEq Op] in
theorem inv_initial : Inv params call initial := by
  have empty : ∀ slot, ¬ Occupied (initial : State Key Value Op).mem slot :=
    fun _ => Bool.false_ne_true
  refine ⟨⟨?_, ?_, ?_, nofun⟩, ?_, ?_, ?_⟩
  · exact fun slot occupied => absurd occupied (empty slot)
  · exact fun slot _ occupied => absurd occupied (empty slot)
  · exact fun slot _ _ holds => absurd holds.1 (empty slot)
  · intro op
    cases call op with
    | query key =>
        cases key with
        | none => exact Or.inl rfl
        | some key => exact trivial
    | insert key value =>
        cases key with
        | none => exact Or.inl rfl
        | some key =>
            cases value with
            | none => exact Or.inl rfl
            | some value => exact trivial
  · exact fun op => iff_of_false Bool.false_ne_true nofun
  · refine fun _ => ⟨?_, rfl, fun bucket i occupied =>
      absurd occupied (empty _)⟩
    intro bucket
    cases bucket with
    | zero => rfl
    | succ bucket =>
        change (if bucket + 1 = 0 then baseBucketSize else 0) =
          if bucket + 1 < 1 then bucketCapacity (bucket + 1) else 0
        rw [if_neg (Nat.succ_ne_zero bucket), if_neg (by omega)]

theorem inv_run (lawful : params.Lawful) (inv : Inv params call state)
    (schedule : List Op) :
    Inv params call (runFrom params call state schedule) := by
  induction schedule generalizing state with
  | nil => exact inv
  | cons op rest ih => exact ih (inv_perform lawful inv op)

/-! ## Keys stay where they are -/

theorem extend_run (lawful : params.Lawful) (inv : Inv params call state)
    (schedule : List Op) :
    Extends state.mem (runFrom params call state schedule).mem := by
  induction schedule generalizing state with
  | nil => exact Extends.refl state.mem
  | cons op rest ih =>
      have step := (execute_ok lawful inv op).2.2.extend
      exact step.trans (ih (inv_perform lawful inv op))

/-- What has returned stays returned. -/
theorem returned_perform (op : Op) {other : Op} {result : Option Value}
    (inv : Inv params call state)
    (returned : state.pc other = .returned result) :
    (perform params call op state).pc other = .returned result := by
  by_cases same : other = op
  · subst other
    rw [pc_perform_self]
    have knows := inv.threads op
    have refused : state.pc op = .idle ∨ state.pc op = .returned none →
        (.returned none : Pc Value) = .returned result := by
      rw [returned]
      rintro (start | done)
      · cases start
      · exact done.symm
    generalize call op = asked at knows ⊢
    cases asked with
    | query key =>
        cases key with
        | none => exact refused knows
        | some key =>
            rw [returned]
            rfl
    | insert key value =>
        cases key with
        | none => exact refused knows
        | some key =>
            cases value with
            | none => exact refused knows
            | some value =>
                rw [returned]
                rfl
  · rw [pc_perform_of_ne same]
    exact returned

/-! ## Queries stay ahead of their key -/

/-- The count that a scan of the backup buckets loaded covers a slot. -/
def Reaches : Cursor → Slot → Prop
  | .backup nBuckets _ _, .backup bucket _ => bucket < nBuckets
  | _, _ => True

variable (params) in
/-- A query has not passed a slot, or it has its answer. -/
def Ahead (key : Key) (slot : Slot) (Answer : Option Value → Prop) :
    Pc Value → Prop
  | .scan _ cursor | .compare _ cursor =>
      rank params key cursor.slot ≤ rank params key slot ∧
        Reaches cursor slot
  | .loadBuckets _ => params.endIdx key ≤ rank params key slot
  | .returned result => Answer result
  | _ => True

end Machine

section Queries

variable {offered : Key → Value → Prop} {slot : Slot}
variable {Answer : Option Value → Prop}

/-- A query moves past slots with other keys only. -/
theorem ahead_next {cursor : Cursor}
    (apart : cursor.slot ≠ slot) (visits : Visits params key cursor.slot)
    (seen : Visits params key slot)
    (ahead : rank params key cursor.slot ≤ rank params key slot)
    (reaches : Reaches cursor slot) :
    rank params key cursor.next.slot ≤ rank params key slot ∧
      Reaches cursor.next slot := by
  constructor
  · rw [rank_next]
    exact lt_of_le_of_ne ahead fun same =>
      apart (rank_injective visits seen same)
  · cases cursor with
    | table i => exact reaches
    | backup nBuckets bucket i =>
        cases slot with
        | table j => trivial
        | backup other j => exact reaches

theorem startIdx_le_rank (seen : Visits params key slot) :
    params.startIdx key ≤ rank params key slot := by
  cases slot with
  | table i => exact seen.1
  | backup bucket i =>
      exact le_trans (startIdx_le_endIdx params key)
        (endIdx_le_rank_backup params key bucket i)

/-- A query that has read all its buckets has read the slot. -/
theorem not_beyond {nBuckets bucket i : Nat}
    (seen : Visits params key slot)
    (reaches : Reaches (.backup nBuckets bucket i) slot)
    (beyond : nBuckets ≤ bucket) :
    ¬ rank params key (.backup bucket i) ≤ rank params key slot := by
  cases slot with
  | table j =>
      have chain := endIdx_le_rank_backup params key bucket i
      exact not_le.mpr (lt_of_lt_of_le seen.2 chain)
  | backup other j =>
      exact not_le.mpr
        (rank_backup_lt key seen (lt_of_lt_of_le reaches beyond) i)

/-- Every step of a query of a key that is in the table. -/
theorem queryStep_ahead (lawful : params.Lawful) {pc : Pc Value}
    (ok : TableOk params offered mem)
    (knows : QueryOk params offered mem key pc)
    (holds : Holds params mem slot key) (visible : Visible mem slot)
    (answers : ∀ found, Holds params mem found key →
      Answer (mem.entry found).value)
    (ahead : Ahead params key slot Answer pc) :
    Ahead params key slot Answer (queryStep params key mem pc) := by
  have seen := ok.visits lawful holds
  cases pc with
  | idle => exact ⟨startIdx_le_rank seen, trivial⟩
  | scan act cursor =>
      rcases knows with ⟨rfl, cursorOk⟩
      rcases ahead with ⟨before, reaches⟩
      change Ahead params key slot Answer
        (scanStep params key mem .query cursor)
      unfold scanStep
      cases cursor with
      | table i =>
          dsimp only
          split
          next inside =>
            split
            next occupied => exact ⟨before, reaches⟩
            next free =>
              have apart : (Cursor.table i).slot ≠ slot := by
                rintro rfl
                exact free holds.1
              exact ahead_next apart ⟨cursorOk.1, inside⟩ seen before reaches
          next outside =>
            exact le_trans (not_lt.mp outside) before
      | backup nBuckets bucket i =>
          dsimp only
          split
          next within =>
            split
            next inside =>
              split
              next occupied => exact ⟨before, reaches⟩
              next free =>
                have apart : (Cursor.backup nBuckets bucket i).slot ≠
                    slot := by
                  rintro rfl
                  exact free holds.1
                exact ahead_next apart inside seen before reaches
            next outside =>
              have all : i = bucketCapacity bucket :=
                le_antisymm cursorOk.2 (not_lt.mp outside)
              refine ⟨?_, ?_⟩
              · change rank params key (.backup (bucket + 1) 0) ≤ _
                rw [rank_bucket, ← all]
                exact before
              · cases slot with
                | table j => trivial
                | backup other j => exact reaches
          next beyond =>
            exact absurd before (not_beyond seen reaches (not_lt.mp beyond))
  | compare act cursor =>
      rcases knows with ⟨rfl, occupied, visits, cursorOk⟩
      rcases ahead with ⟨before, reaches⟩
      change Ahead params key slot Answer
        (compareStep params key mem .query cursor)
      unfold compareStep
      split
      next equal => trivial
      next other =>
        refine ahead_next ?_ visits seen before reaches
        rintro rfl
        exact other holds.2
  | loadBuckets act =>
      refine ⟨?_, ?_⟩
      · change rank params key (.backup 0 0) ≤ _
        rw [rank_buckets]
        exact ahead
      · cases slot with
        | table i => trivial
        | backup bucket i => exact visible
  | readValue act found =>
      exact answers found knows.2
  | returned result => exact ahead
  | _ => exact knows.elim

end Queries

/-! ## The value of a key -/

variable (params) in
/-- The slot of a key has a value. -/
def Latest (mem : Memory Key Value Op) (key : Key) (value : Value) : Prop :=
  ∃ slot, Holds params mem slot key ∧ Visible mem slot ∧
    (mem.entry slot).value = some value

variable (params) in
/-- An insert whose value stands, as long as nobody else replaces it. -/
def SoloOk (mem : Memory Key Value Op) (key : Key) (value : Value) :
    Pc Value → Prop
  | .readValue _ slot => (mem.entry slot).value = some value
  | .storeNextSize nBuckets _ | .storeCount nBuckets =>
      (mem.entry (.backup nBuckets 0)).value = some value
  | .unlock _ | .returned _ =>
      maxBTBuckets ≤ mem.nAvailBuckets ∨ Latest params mem key value
  | _ => True

theorem updated_solo {act : Activity} {slot : Slot}
    (holds : Holds params mem slot key) (visible : Visible mem slot)
    (stored : (mem.entry slot).value = some value) :
    SoloOk params mem key value (updated act slot value) := by
  unfold updated
  split
  · exact Or.inr ⟨slot, holds, visible, stored⟩
  · exact stored

theorem scanStep_solo {act : Activity} {cursor : Cursor}
    (inserts : act ≠ .query)
    (knows : InsertOk params mem key value (.scan act cursor)) :
    SoloOk params mem key value (scanStep params key mem act cursor) := by
  unfold scanStep
  cases cursor with
  | table i => dsimp only; split_ifs <;> trivial
  | backup nBuckets bucket i =>
      cases act with
      | query => exact absurd rfl inserts
      | optimistic => exact knows.elim
      | locked => dsimp only; split_ifs <;> trivial

theorem compareStep_solo {act : Activity} {cursor : Cursor}
    (inserts : act ≠ .query) :
    SoloOk params mem key value (compareStep params key mem act cursor) := by
  unfold compareStep
  rw [if_neg inserts]
  split_ifs <;> trivial

/-- Every step of the insert itself. -/
theorem insertStep_solo [DecidableEq Value] (op : Op) {pc : Pc Value}
    (knows : InsertOk params mem key value pc)
    (solo : SoloOk params mem key value pc) :
    SoloOk params (insertStep params op key value mem pc).1 key value
      (insertStep params op key value mem pc).2 := by
  cases pc with
  | scan act cursor =>
      refine scanStep_solo ?_ knows
      rintro rfl
      cases cursor <;> exact knows.elim
  | compare act cursor =>
      refine compareStep_solo ?_
      rintro rfl
      cases cursor <;> exact knows.elim
  | check act slot =>
      dsimp only [insertStep]
      split
      · trivial
      next same =>
        exact updated_solo knows.2.2.1 knows.2.2.2 (not_not.mp same)
  | store act slot =>
      rcases knows with ⟨-, -, holds, visible, -⟩
      have steady : Steady mem (mem.setEntry slot
          { mem.entry slot with value := some value }) :=
        steady_setEntry rfl fun _ => rfl
      exact updated_solo (steady.extend.holds holds)
        (steady.extend.visible visible)
        (congrArg Entry.value (entry_setEntry_self mem slot _))
  | readValue act slot => exact Or.inr ⟨slot, knows.2.2.1, knows.2.2.2, solo⟩
  | lock =>
      dsimp only [insertStep]
      split <;> trivial
  | grow nBuckets =>
      dsimp only [insertStep]
      split
      next full => exact Or.inl (le_of_eq (full.symm.trans knows.2.1))
      · trivial
  | clear nBuckets i size =>
      dsimp only [insertStep]
      split <;> trivial
  | occupy slot fresh =>
      rcases knows with ⟨⟨place, -⟩, -, -, wroteValue⟩
      have stored : ((mem.setEntry slot { mem.entry slot with
          isOccupied := true }).entry slot).value = some value := by
        rw [entry_setEntry_self]
        exact wroteValue
      cases fresh with
      | none => exact stored
      | some bucket =>
          rcases place with ⟨rfl, -⟩
          exact stored
  | storeNextSize nBuckets size => exact solo
  | storeCount nBuckets => exact solo
  | unlock result => exact solo
  | returned result => exact solo
  | _ => trivial

/-- The steps of the others. -/
theorem SoloOk.other {pc : Pc Value}
    (knows : InsertOk params mem key value pc) (extend : Extends mem after)
    (same : ∀ slot, Holds params mem slot key →
      (after.entry slot).value = (mem.entry slot).value)
    (solo : SoloOk params mem key value pc) :
    SoloOk params after key value pc := by
  have latest : (maxBTBuckets ≤ mem.nAvailBuckets ∨
      Latest params mem key value) →
      maxBTBuckets ≤ after.nAvailBuckets ∨ Latest params after key value := by
    refine Or.imp (fun full => le_trans full extend.count) ?_
    rintro ⟨slot, holds, visible, stored⟩
    exact ⟨slot, extend.holds holds, extend.visible visible,
      (same slot holds).trans stored⟩
  cases pc with
  | readValue act slot => exact (same slot knows.2.2.1).trans solo
  | storeNextSize nBuckets size => exact (same _ knows.2.2.2).trans solo
  | storeCount nBuckets => exact (same _ knows.2.2).trans solo
  | unlock | returned => exact latest solo
  | _ => trivial

/-! ## Runs -/

/-- Two keys of a slot are equal. -/
theorem Holds.equal (lawful : params.Lawful) {slot : Slot} {one two : Key}
    (first : Holds params mem slot one) (second : Holds params mem slot two) :
    params.keyComparator one two = true := by
  rcases first.exists_key with ⟨stored, here, same⟩
  rcases second.exists_key with ⟨also, there, equal⟩
  rw [here] at there
  cases there
  exact lawful.trans _ _ _ (lawful.symm _ _ same) equal

theorem Holds.congr (lawful : params.Lawful) {slot : Slot} {one two : Key}
    (holds : Holds params mem slot one)
    (same : params.keyComparator one two = true) :
    Holds params mem slot two := by
  rcases holds.exists_key with ⟨stored, here, equal⟩
  refine ⟨holds.1, ?_⟩
  rw [keyMatches_of_key here]
  exact lawful.trans _ _ _ equal same

section Runs

variable [DecidableEq Value] [DecidableEq Op]
variable {call : Op → Call Key Value} {state : State Key Value Op}

theorem begun_run {op : Op} (begun : Begun state op) (schedule : List Op) :
    Begun (runFrom params call state schedule) op := by
  induction schedule generalizing state with
  | nil => exact begun
  | cons other rest ih => exact ih (begun_perform begun)

theorem returned_run (lawful : params.Lawful) {op : Op}
    {result : Option Value} (inv : Inv params call state)
    (returned : state.pc op = .returned result) (schedule : List Op) :
    (runFrom params call state schedule).pc op = .returned result := by
  induction schedule generalizing state with
  | nil => exact returned
  | cons other rest ih =>
      exact ih (inv_perform lawful inv other)
        (returned_perform other inv returned)

theorem runFrom_append (first second : List Op) :
    runFrom params call state (first ++ second) =
      runFrom params call (runFrom params call state first) second :=
  List.foldl_append

/-- A step of the program seen by a query. -/
theorem ahead_perform (lawful : params.Lawful)
    (inv : Inv params call state) {query : Op} {slot : Slot}
    {Answer : Option Value → Prop}
    (asks : call query = .query (some key))
    (holds : Holds params state.mem slot key)
    (visible : Visible state.mem slot)
    (answers : ∀ found, Holds params state.mem found key →
      Answer (state.mem.entry found).value)
    (ahead : Ahead params key slot Answer (state.pc query)) (op : Op) :
    Ahead params key slot Answer
      ((perform params call op state).pc query) := by
  by_cases same : query = op
  · subst query
    have knows := inv.threads op
    rw [asks] at knows
    rw [pc_perform_self, asks]
    exact queryStep_ahead lawful inv.table knows holds visible answers ahead
  · rw [pc_perform_of_ne same]
    exact ahead

/-- A run seen by a query, when every value that it may read is an answer. -/
theorem ahead_run (lawful : params.Lawful) (inv : Inv params call state)
    {query : Op} {slot : Slot} {Answer : Option Value → Prop}
    (asks : call query = .query (some key))
    (holds : Holds params state.mem slot key)
    (visible : Visible state.mem slot) (schedule : List Op)
    (answers : ∀ done rest, schedule = done ++ rest → ∀ found,
      Holds params (runFrom params call state done).mem found key →
        Answer ((runFrom params call state done).mem.entry found).value)
    (ahead : Ahead params key slot Answer (state.pc query)) :
    Ahead params key slot Answer
      ((runFrom params call state schedule).pc query) := by
  induction schedule generalizing state with
  | nil => exact ahead
  | cons op rest ih =>
      have extend := (execute_ok lawful inv op).2.2.extend
      refine ih (inv_perform lawful inv op) (extend.holds holds)
        (extend.visible visible) ?_ ?_
      · intro done more split
        exact answers (op :: done) more (congrArg (op :: ·) split)
      · exact ahead_perform lawful inv asks holds visible
          (answers [] (op :: rest) rfl) ahead op

variable (params call) in
/-- The other inserts of a key have returned, or do not begin before the end
of a run. -/
def Alone (insert : Op) (key : Key) (state last : State Key Value Op) :
    Prop :=
  ∀ op other value, op ≠ insert →
    call op = .insert (some other) (some value) →
      params.keyComparator other key = true →
        (∃ result, state.pc op = .returned result) ∨ last.pc op = .idle

/-- Nobody else changes the value of the key. -/
theorem value_perform (lawful : params.Lawful) (inv : Inv params call state)
    {op : Op}
    (others : ∀ other found, call op = .insert (some other) (some found) →
      params.keyComparator other key = true →
        (∃ result, state.pc op = .returned result) ∨ state.pc op = .idle)
    {slot : Slot} (holds : Holds params state.mem slot key) :
    ((perform params call op state).mem.entry slot).value =
      (state.mem.entry slot).value := by
  change ((execute params op (call op) state.mem (state.pc op)).1.entry
    slot).value = _
  cases asks : call op with
  | query asked => cases asked <;> rfl
  | insert other found =>
      cases other with
      | none => rfl
      | some other =>
          cases found with
          | none => rfl
          | some found =>
              have step := insert_ok lawful inv asks
              rcases step.values slot holds.1 with same | ⟨act, stores⟩
              · exact same
              · have knows := inv.threads op
                rw [asks, stores] at knows
                have equal := Holds.equal lawful knows.2.2.1 holds
                rcases others other found asks equal with
                  ⟨result, returned⟩ | idle
                · rw [stores] at returned
                  cases returned
                · rw [stores] at idle
                  cases idle

/-- The value of an insert that runs alone stands to the end of the run. -/
theorem solo_run (lawful : params.Lawful) (inv : Inv params call state)
    {insert : Op} (inserts : call insert = .insert (some key) (some value))
    (schedule : List Op)
    (alone : Alone params call insert key state
      (runFrom params call state schedule))
    (solo : SoloOk params state.mem key value (state.pc insert)) :
    SoloOk params (runFrom params call state schedule).mem key value
      ((runFrom params call state schedule).pc insert) := by
  induction schedule generalizing state with
  | nil => exact solo
  | cons op rest ih =>
      have next := inv_perform lawful inv op
      refine ih next ?_ ?_
      · intro other found stored apart asks equal
        refine (alone other found stored apart asks equal).imp_left ?_
        rintro ⟨result, returned⟩
        exact ⟨result, returned_perform op inv returned⟩
      · have knows := inv.threads insert
        rw [inserts] at knows
        by_cases same : insert = op
        · subst insert
          have step := insertStep_solo op knows solo
          change SoloOk params (execute params op (call op) state.mem
            (state.pc op)).1 key value _
          rw [pc_perform_self, inserts]
          exact step
        · rw [pc_perform_of_ne same]
          refine SoloOk.other knows (execute_ok lawful inv op).2.2.extend
            (fun slot holds => value_perform lawful inv ?_ holds) solo
          intro other found asks equal
          refine (alone op other found (Ne.symm same) asks equal).imp_right ?_
          intro idle
          by_contra begun
          have later : Begun (perform params call op state) op :=
            begun_perform begun
          exact begun_run later rest idle

end Runs

end AoclDlp.KernelRegister.DispatchTable
