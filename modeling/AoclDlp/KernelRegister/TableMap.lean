import AoclDlp.KernelFrame.KernelKey
import AoclDlp.KernelRegister.TableRuns

/-!
# The dispatch table is a map

In every state that a schedule reaches the keys of the occupied slots differ,
the occupied slots of a chain and of the backup buckets form prefixes, and
queries answer with values that were inserted.  A returned insert is seen by
the queries that start later; one that overlaps no other insert of its key is
seen with its value.
-/

namespace AoclDlp.KernelRegister.DispatchTable

variable {Key Value Op : Type} (params : Parameters Key)

/-- The properties of a state. -/
structure IsMap (call : Op → Call Key Value) (state : State Key Value Op) :
    Prop where
  distinct : ∀ one two left right, Occupied state.mem one →
    Occupied state.mem two → (state.mem.entry one).key = some left →
      (state.mem.entry two).key = some right →
        params.keyComparator left right = true → one = two
  chains : ∀ chain i j, chain * params.chainSize ≤ j → j ≤ i →
    i < (chain + 1) * params.chainSize → Occupied state.mem (.table i) →
      Occupied state.mem (.table j)
  buckets : ∀ bucket i earlier j, Occupied state.mem (.backup bucket i) →
    j < 128 * 2 ^ earlier →
      (earlier < bucket ∨ earlier = bucket ∧ j ≤ i) →
        Occupied state.mem (.backup earlier j)
  sizes : ∀ bucket, bucket < state.mem.nAvailBuckets →
    state.mem.backupSize bucket = 128 * 2 ^ bucket
  inside : ∀ bucket i, Occupied state.mem (.backup bucket i) →
    i < state.mem.backupSize bucket
  passed : ∀ query key value, call query = .query key →
    state.pc query = .returned (some value) →
      ∃ asked insert inserted, key = some asked ∧
        call insert = .insert (some inserted) (some value) ∧
        params.keyComparator asked inserted = true ∧ Begun state insert
  watched : ∀ slot value, (state.mem.entry slot).value = some value →
    value ∈ state.mem.valueSink

variable {params}

theorem bucketCapacity_eq (bucket : Nat) :
    bucketCapacity bucket = 128 * 2 ^ bucket :=
  Nat.shiftLeft_eq baseBucketSize bucket

/-- The operation in its critical section knows the sizes of the buckets. -/
theorem InsertOk.laid {mem : Memory Key Value Op} {key : Key} {value : Value}
    {pc : Pc Value} (knows : InsertOk params mem key value pc)
    (held : InLock pc = true) :
    ∃ sized next filled, mem.nAvailBuckets ≤ sized ∧ filled ≤ sized ∧
      Laid mem sized next filled := by
  have rest : Settled mem → ∃ sized next filled,
      mem.nAvailBuckets ≤ sized ∧ filled ≤ sized ∧
        Laid mem sized next filled :=
    fun settled => ⟨_, _, _, le_refl _, le_refl _, settled⟩
  have claimed : ∀ slot fresh, Claims params mem key slot fresh →
      ∃ sized next filled, mem.nAvailBuckets ≤ sized ∧ filled ≤ sized ∧
        Laid mem sized next filled := by
    rintro slot fresh ⟨place, -⟩
    cases fresh with
    | none => exact rest place.1
    | some bucket =>
        rcases place with ⟨-, last, -, laid⟩
        exact ⟨_, _, _, by omega, Nat.le_succ _, laid⟩
  cases pc with
  | idle | lock | returned => cases held
  | scan act cursor =>
      cases act with
      | query | optimistic => cases held
      | locked => cases cursor <;> exact rest knows.1
  | compare act cursor =>
      cases act with
      | query | optimistic => cases held
      | locked => cases cursor <;> exact rest knows.1
  | loadBuckets | readValue => exact rest knows.2.1
  | check act | watch act | store act =>
      exact rest (knows.2.1 (of_decide_eq_true held))
  | grow | resize | unlock => exact rest knows.1
  | clear nBuckets =>
      rcases knows with ⟨last, -, laid, -⟩
      exact ⟨_, _, _, by omega, Nat.le_succ _, laid⟩
  | watchNew slot fresh => exact claimed slot fresh knows
  | writeKey slot fresh | writeValue slot fresh | writeFree slot fresh
  | occupy slot fresh => exact claimed slot fresh knows.1
  | storeNextSize nBuckets =>
      rcases knows with ⟨last, -, laid, -⟩
      exact ⟨_, _, _, by omega, le_refl _, laid⟩
  | storeCount nBuckets =>
      rcases knows with ⟨last, laid, -⟩
      exact ⟨_, _, _, by omega, le_refl _, laid⟩

section Map

variable {call : Op → Call Key Value} {state : State Key Value Op}

/-- The sizes of the available buckets, whoever is adding one. -/
theorem Inv.laid (inv : Inv params call state) :
    ∃ sized next filled, state.mem.nAvailBuckets ≤ sized ∧
      filled ≤ sized ∧ Laid state.mem sized next filled := by
  cases holder : state.mem.mtx with
  | none => exact ⟨_, _, _, le_refl _, le_refl _, inv.settled holder⟩
  | some op =>
      have held := (inv.mutex op).mpr holder
      have knows := inv.threads op
      have refused : ¬ (state.pc op = .idle ∨ state.pc op = .returned none) := by
        rintro (start | done)
        · rw [start] at held
          cases held
        · rw [done] at held
          cases held
      generalize call op = asked at knows
      cases asked with
      | query key =>
          cases key with
          | none => exact absurd knows refused
          | some key =>
              have outside := QueryOk.outside knows
              exact absurd (held.symm.trans outside) Bool.false_ne_true.symm
      | insert key value =>
          cases key with
          | none => exact absurd knows refused
          | some key =>
              cases value with
              | none => exact absurd knows refused
              | some value => exact InsertOk.laid knows held

/-- The key of an occupied slot, and where its scans pass. -/
theorem Inv.entry (inv : Inv params call state) {slot : Slot}
    (occupied : Occupied state.mem slot) :
    ∃ key, (state.mem.entry slot).key = some key ∧
      Visits params key slot := by
  rcases inv.table.entry slot occupied with ⟨key, value, entry, visits, -⟩
  exact ⟨key, congrArg Entry.key entry, visits⟩

theorem Inv.isMap (lawful : params.Lawful) (inv : Inv params call state) :
    IsMap params call state := by
  refine ⟨?_, ?_, ?_, ?_, ?_, ?_, inv.table.watched⟩
  · intro one two left right first second here there equal
    refine inv.table.unique one two right ⟨first, ?_⟩ ⟨second, ?_⟩
    · rw [keyMatches_of_key here]
      exact equal
    · rw [keyMatches_of_key there]
      exact lawful.refl right
  · intro chain i j start before stop occupied
    rcases Nat.lt_or_eq_of_le before with earlier | rfl
    · rcases inv.entry occupied with ⟨key, here, first, last⟩
      have own : params.index key = chain := by
        have mine := Nat.div_eq_of_lt_le first last
        have theirs := Nat.div_eq_of_lt_le (le_trans start before) stop
        exact mine.symm.trans theirs
      refine inv.table.packed _ key occupied here (.table j) ⟨?_, ?_⟩ earlier
      · unfold Parameters.startIdx
        rw [own]
        exact start
      · exact lt_trans earlier last
    · exact occupied
  · intro bucket i earlier j occupied small before
    rcases inv.entry occupied with ⟨key, here, inside⟩
    have seen : Visits params key (.backup earlier j) := by
      change j < bucketCapacity earlier
      rw [bucketCapacity_eq]
      exact small
    rcases before with lower | ⟨rfl, below⟩
    · exact inv.table.packed _ key occupied here _ seen
        (rank_backup_lt key seen lower i)
    · rcases Nat.lt_or_eq_of_le below with less | rfl
      · refine inv.table.packed _ key occupied here _ seen ?_
        rw [rank_backup, rank_backup]
        omega
      · exact occupied
  · intro bucket available
    rcases inv.laid with ⟨sized, next, filled, reach, -, laid⟩
    rw [laid.backupSize, if_pos (lt_of_lt_of_le available reach),
      bucketCapacity_eq]
  · intro bucket i occupied
    rcases inv.laid with ⟨sized, next, filled, -, within, laid⟩
    rcases inv.entry occupied with ⟨key, -, inside⟩
    rw [laid.backupSize,
      if_pos (lt_of_lt_of_le (laid.filled bucket i occupied) within)]
    exact inside
  · intro query key value asks returned
    have knows := inv.threads query
    rw [asks, returned] at knows
    cases key with
    | none =>
        rcases knows with start | done
        · cases start
        · cases done
    | some key =>
        rcases knows value rfl with ⟨insert, inserted, inserts, equal, begun⟩
        exact ⟨key, insert, inserted, rfl, inserts, equal, begun⟩

variable [DecidableEq Value] [DecidableEq Op]

/-- A query that starts behind a returned insert of an equal key finds it. -/
theorem query_finds (lawful : params.Lawful) (inv : Inv params call state)
    {insert query : Op} {key asked : Key} {value : Value}
    {result answer : Option Value}
    (inserts : call insert = .insert (some key) (some value))
    (asks : call query = .query (some asked))
    (equal : params.keyComparator key asked = true)
    (returned : state.pc insert = .returned result)
    (starts : state.pc query = .idle) (later : List Op)
    (room : (runFrom params call state later).mem.nAvailBuckets <
      maxBTBuckets)
    (answered : (runFrom params call state later).pc query =
      .returned answer) : answer ≠ none := by
  have knows := inv.threads insert
  rw [inserts, returned] at knows
  have bounded := (extend_run lawful inv later).count
  rcases knows with full | ⟨slot, holds, visible⟩
  · omega
  · have ahead : Ahead params asked slot (· ≠ none) (state.pc query) := by
      rw [starts]
      trivial
    have ends := ahead_run lawful inv asks (holds.congr lawful equal) visible
      later ?_ ahead
    · rw [answered] at ends
      exact ends
    · intro done rest split found held
      rcases (inv_run lawful inv done).table.entry found held.1 with
        ⟨own, stored, entry, -⟩
      rw [entry]
      exact Option.some_ne_none stored

/-- An insert that overlaps no other insert of its key is what queries find
until the next one begins. -/
theorem query_finds_latest (lawful : params.Lawful)
    (inv : Inv params call state) {insert query : Op} {key asked : Key}
    {value : Value} {result answer : Option Value}
    (inserts : call insert = .insert (some key) (some value))
    (asks : call query = .query (some asked))
    (equal : params.keyComparator key asked = true)
    (during later : List Op) (unborn : state.pc insert = .idle)
    (returned : (runFrom params call state during).pc insert =
      .returned result)
    (starts : (runFrom params call state during).pc query = .idle)
    (alone : Alone params call insert key state
      (runFrom params call state (during ++ later)))
    (room : (runFrom params call state (during ++ later)).mem.nAvailBuckets <
      maxBTBuckets)
    (answered : (runFrom params call state (during ++ later)).pc query =
      .returned answer) : answer = some value := by
  have between := inv_run lawful inv during
  have latest : ∀ done rest, later = done ++ rest →
      Latest params
        (runFrom params call (runFrom params call state during) done).mem
        key value := by
    rintro done rest rfl
    have middle := inv_run lawful between done
    have bounded := (extend_run lawful middle rest).count
    rw [← List.append_assoc, runFrom_append, runFrom_append] at room alone
    have quietly : Alone params call insert key state
        (runFrom params call (runFrom params call state during) done) := by
      intro op other found apart inserted same
      refine (alone op other found apart inserted same).imp_right ?_
      intro idle
      by_contra begun
      exact begun_run begun rest idle
    have start : SoloOk params state.mem key value (state.pc insert) := by
      rw [unborn]
      trivial
    rw [← runFrom_append] at quietly
    have solo := solo_run lawful inv inserts (during ++ done) quietly start
    rw [runFrom_append, returned_run lawful between returned done] at solo
    rcases solo with full | stands
    · omega
    · exact stands
  rw [runFrom_append] at answered
  rcases latest [] later rfl with ⟨slot, holds, visible, -⟩
  have ahead : Ahead params asked slot (· = some value)
      ((runFrom params call state during).pc query) := by
    rw [starts]
    trivial
  have ends := ahead_run lawful between asks (holds.congr lawful equal)
    visible later ?_ ahead
  · rw [answered] at ends
    exact ends
  · intro done rest split found held
    rcases latest done rest split with ⟨here, stands, -, stored⟩
    have table := (inv_run lawful between done).table
    rw [table.unique found here key
      (held.congr lawful (lawful.symm _ _ equal)) stands]
    exact stored

/--
Under every schedule the table is a map.  A query that starts behind a returned
insert of an equal key finds it, and finds its value when no other insert of an
equal key has overlapped it or begun since.
-/
theorem dispatch_table_is_map (lawful : params.Lawful)
    (call : Op → Call Key Value) (schedule : List Op) :
    IsMap params call (runFrom params call initial schedule) ∧
    (∀ insert query key asked value result answer,
      call insert = .insert (some key) (some value) →
      call query = .query (some asked) →
      params.keyComparator key asked = true →
      (runFrom params call initial schedule).pc insert = .returned result →
      (runFrom params call initial schedule).pc query = .idle →
      ∀ later,
        (runFrom params call initial (schedule ++ later)).mem.nAvailBuckets <
          maxBTBuckets →
        (runFrom params call initial (schedule ++ later)).pc query =
          .returned answer →
        answer ≠ none) ∧
    (∀ insert query key asked value result answer,
      call insert = .insert (some key) (some value) →
      call query = .query (some asked) →
      params.keyComparator key asked = true →
      (runFrom params call initial schedule).pc insert = .idle →
      ∀ during later,
        (runFrom params call initial (schedule ++ during)).pc insert =
          .returned result →
        (runFrom params call initial (schedule ++ during)).pc query = .idle →
        Alone params call insert key (runFrom params call initial schedule)
          (runFrom params call initial (schedule ++ (during ++ later))) →
        (runFrom params call initial
          (schedule ++ (during ++ later))).mem.nAvailBuckets < maxBTBuckets →
        (runFrom params call initial (schedule ++ (during ++ later))).pc query
          = .returned answer →
        answer = some value) := by
  have start : Inv params call (initial : State Key Value Op) := inv_initial
  have inv := inv_run lawful start schedule
  refine ⟨inv.isMap lawful, ?_, ?_⟩
  · intro insert query key asked value result answer inserts asks equal
      returned starts later room answered
    rw [runFrom_append] at room answered
    exact query_finds lawful inv inserts asks equal returned starts later
      room answered
  · intro insert query key asked value result answer inserts asks equal
      unborn during later returned starts alone room answered
    rw [runFrom_append] at returned starts
    rw [runFrom_append] at alone room answered
    exact query_finds_latest lawful inv inserts asks equal during later
      unborn returned starts alone room answered

end Map

/-! ## Kernel keys -/

section KernelKeys

open AoclDlp.KernelFrame.KernelKey

/-- A table of GEMM kernels, with `gemmHashKeyGetter` and
`gemmKeyComparator`. -/
def gemmTable (arrays : Arrays) (tableSize chainSize : Nat)
    (hasher : BitVec 64 → BitVec 64) :
    Parameters { info : KernelInfo // WellFormed arrays info } where
  tableSize := tableSize
  chainSize := chainSize
  hashKeyGetter key := gemmHashKeyGetter key
  keyComparator one two := operatorEq arrays one two
  hasher := hasher

/-- Well formed kernel keys can be looked up. -/
theorem gemmTable_lawful (arrays : Arrays) (tableSize chainSize : Nat)
    (hasher : BitVec 64 → BitVec 64) :
    (gemmTable arrays tableSize chainSize hasher).Lawful := by
  have meaning : ∀ one two : { info : KernelInfo // WellFormed arrays info },
      operatorEq arrays one two = true ↔
        KernelFrame.KernelKey.value arrays one =
          KernelFrame.KernelKey.value arrays two :=
    fun one two => operatorEq_iff one.property two.property
  refine ⟨?_, ?_, ?_, ?_⟩
  · intro key
    exact (meaning key key).mpr rfl
  · intro one two same
    exact (meaning two one).mpr ((meaning one two).mp same).symm
  · intro one two three first second
    exact (meaning one three).mpr
      (((meaning one two).mp first).trans ((meaning two three).mp second))
  · intro one two same
    have fields : one.val.fields = two.val.fields :=
      congrArg Prod.fst ((meaning one two).mp same)
    change gemmHashKeyGetter one = gemmHashKeyGetter two
    unfold gemmHashKeyGetter
    rw [fields]

end KernelKeys

/-- A table of one chain of one slot. -/
def smallTable : Parameters Nat where
  tableSize := 1
  chainSize := 1
  hashKeyGetter key := (BitVec.ofNat 64 key, BitVec.ofNat 64 key)
  keyComparator one two := one == two
  hasher := id

theorem smallTable_lawful : smallTable.Lawful := by
  refine ⟨fun key => beq_self_eq_true key, ?_, ?_, ?_⟩
  · intro one two same
    exact beq_iff_eq.mpr (beq_iff_eq.mp same).symm
  · intro one two three first second
    exact beq_iff_eq.mpr
      ((beq_iff_eq.mp first).trans (beq_iff_eq.mp second))
  · intro one two same
    rw [beq_iff_eq.mp same]

/-- Two inserts of a key, queries of it, and calls with null pointers. -/
def smallCalls : Nat → Call Nat Nat
  | 0 => .insert (some 5) (some 7)
  | 1 => .insert (some 5) (some 8)
  | 2 => .query (some 5)
  | 3 => .insert (some 5) none
  | 4 => .insert none (some 7)
  | _ => .query none

/-- The first insert runs alone; the query comes before the second one. -/
theorem dispatch_table_is_map_small :
    ∃ answer, (runFrom smallTable smallCalls initial
        (List.replicate 12 0 ++ List.replicate 4 2)).pc 2 =
          .returned answer ∧
      answer ≠ none ∧ answer = some 7 := by
  have map := dispatch_table_is_map smallTable_lawful smallCalls
  refine ⟨some 7, by decide, ?_, ?_⟩
  · exact (map (List.replicate 12 0)).2.1 0 2 5 5 7 (some 7) _ rfl rfl
      (by decide) (by decide) (by decide) (List.replicate 4 2) (by decide)
      (by decide)
  · refine (map []).2.2 0 2 5 5 7 (some 7) _ rfl rfl (by decide)
      (by decide) (List.replicate 12 0) (List.replicate 4 2) (by decide)
      (by decide) ?_ (by decide) (by decide)
    intro op other value apart inserts same
    refine Or.inr ?_
    match op with
    | 0 => exact absurd rfl apart
    | 1 => decide
    | 2 => cases inserts
    | 3 => cases inserts
    | 4 => cases inserts
    | _ + 5 => cases inserts

/-- An insert without a value returns and changes nothing, and a query without
a key answers null after an insert without one. -/
theorem null_arguments_are_refused :
    (let state := runFrom smallTable smallCalls initial
      (List.replicate 12 0 ++ [3])
    state.pc 3 = .returned none ∧
      (runFrom smallTable smallCalls state (List.replicate 4 2)).pc 2 =
        .returned (some 7)) ∧
    (let state := runFrom smallTable smallCalls initial [4]
    state.pc 4 = .returned none ∧
      (runFrom smallTable smallCalls state [5]).pc 5 = .returned none) := by
  decide

end AoclDlp.KernelRegister.DispatchTable
