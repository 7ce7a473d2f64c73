import AoclDlp.KernelRegister.DispatchTable
import Mathlib.Algebra.Order.Group.Nat
import Mathlib.Tactic.SplitIfs

/-!
# The invariant of the dispatch table

Every scan for a key visits the slots of its chain and then the backup buckets,
in the order of `rank`.  Occupied slots are never given up, so what a scan has
left behind stays behind it; under the mutex nobody else occupies a slot, so a
scan that finds a free slot knows every key of the table.

`InsertOk` and `QueryOk` say what an operation knows at each step.
-/

namespace AoclDlp.KernelRegister.DispatchTable


/-! ## The order of a scan -/

theorem bucketCapacity_zero : bucketCapacity 0 = baseBucketSize :=
  rfl

theorem bucketCapacity_succ (bucket : Nat) :
    bucketCapacity (bucket + 1) = 2 * bucketCapacity bucket := by
  unfold bucketCapacity
  rw [Nat.shiftLeft_succ]

theorem baseBucketSize_le (bucket : Nat) :
    baseBucketSize ≤ bucketCapacity bucket := by
  induction bucket with
  | zero => exact le_refl _
  | succ bucket ih =>
      rw [bucketCapacity_succ]
      omega

/-- An earlier bucket is at most half as large as a later one. -/
theorem bucketCapacity_lt {bucket later : Nat} (before : bucket < later) :
    2 * bucketCapacity bucket ≤ bucketCapacity later := by
  induction later with
  | zero => omega
  | succ later ih =>
      rw [bucketCapacity_succ]
      rcases Nat.lt_succ_iff_lt_or_eq.mp before with earlier | rfl
      · have half := ih earlier
        omega
      · exact le_refl _

variable {Key Value Op : Type} (params : Parameters Key)

/-- The place of a slot in the scan for a key. -/
def rank (key : Key) : Slot → Nat
  | .table i => i
  | .backup bucket i =>
      params.endIdx key + (bucketCapacity bucket - baseBucketSize) + i

/-- The slots that a scan for a key visits. -/
def Visits (key : Key) : Slot → Prop
  | .table i => params.startIdx key ≤ i ∧ i < params.endIdx key
  | .backup bucket i => i < bucketCapacity bucket

/-- The loop conditions of a scan for a key. -/
def CursorOk (key : Key) : Cursor → Prop
  | .table i => params.startIdx key ≤ i ∧ i ≤ params.endIdx key
  | .backup nBuckets bucket i =>
      bucket ≤ nBuckets ∧ i ≤ bucketCapacity bucket

variable {params}

theorem rank_backup (key : Key) (bucket i : Nat) :
    rank params key (.backup bucket i) =
      params.endIdx key + (bucketCapacity bucket - baseBucketSize) + i :=
  rfl

/-- A slot of an earlier bucket is visited before a slot of a later one. -/
theorem rank_backup_lt (key : Key) {bucket later i : Nat}
    (inside : i < bucketCapacity bucket) (before : bucket < later)
    (j : Nat) :
    rank params key (.backup bucket i) < rank params key (.backup later j) := by
  have half := bucketCapacity_lt before
  have base := baseBucketSize_le bucket
  rw [rank_backup, rank_backup]
  omega

theorem rank_next (key : Key) (cursor : Cursor) :
    rank params key cursor.next.slot = rank params key cursor.slot + 1 := by
  cases cursor with
  | table i => rfl
  | backup nBuckets bucket i =>
      change rank params key (.backup bucket (i + 1)) =
        rank params key (.backup bucket i) + 1
      rw [rank_backup, rank_backup, Nat.add_assoc _ i 1]

/-- The scan goes on at the start of the next bucket. -/
theorem rank_bucket (key : Key) (bucket : Nat) :
    rank params key (.backup (bucket + 1) 0) =
      rank params key (.backup bucket (bucketCapacity bucket)) := by
  have base := baseBucketSize_le bucket
  rw [rank_backup, rank_backup, bucketCapacity_succ]
  omega

theorem rank_buckets (key : Key) :
    rank params key (.backup 0 0) = params.endIdx key := by
  rw [rank_backup, bucketCapacity_zero, Nat.sub_self, Nat.add_zero]

theorem endIdx_le_rank_backup (params : Parameters Key) (key : Key) (bucket i : Nat) :
    params.endIdx key ≤ rank params key (.backup bucket i) := by
  rw [rank_backup]
  omega

theorem rank_injective {key : Key} {one two : Slot}
    (first : Visits params key one) (second : Visits params key two)
    (same : rank params key one = rank params key two) : one = two := by
  cases one with
  | table i =>
      cases two with
      | table j => exact congrArg Slot.table same
      | backup bucket j =>
          have later := endIdx_le_rank_backup params key bucket j
          have early : i < params.endIdx key := first.2
          rw [← same] at later
          exact absurd later (not_le.mpr early)
  | backup bucket i =>
      cases two with
      | table j =>
          have later := endIdx_le_rank_backup params key bucket i
          have early : j < params.endIdx key := second.2
          rw [same] at later
          exact absurd later (not_le.mpr early)
      | backup other j =>
          rcases lt_trichotomy bucket other with before | rfl | after
          · exact absurd same (Nat.ne_of_lt (rank_backup_lt key first before j))
          · rw [rank_backup, rank_backup] at same
            exact congrArg (Slot.backup bucket) (by omega)
          · exact absurd same.symm
              (Nat.ne_of_lt (rank_backup_lt key second after i))

/-! ## What the memory holds -/

/-- A slot whose key can be read. -/
def Occupied (mem : Memory Key Value Op) (slot : Slot) : Prop :=
  (mem.entry slot).isOccupied = true

variable (params)

/-- A slot with a key that is equal to the given one. -/
def Holds (mem : Memory Key Value Op) (slot : Slot) (key : Key) : Prop :=
  Occupied mem slot ∧ keyMatches params mem slot key = true

/-- The slots that a scan has passed hold other keys. -/
def Behind (mem : Memory Key Value Op) (key : Key) (place : Nat) : Prop :=
  ∀ slot, Visits params key slot → rank params key slot < place →
    Occupied mem slot ∧ ¬ keyMatches params mem slot key = true

/-- A slot that scans reach once they load the count of the buckets. -/
def Visible (mem : Memory Key Value Op) : Slot → Prop
  | .table _ => True
  | .backup bucket _ => bucket < mem.nAvailBuckets

/-- The key is in the table. -/
def Stored (mem : Memory Key Value Op) (key : Key) : Prop :=
  ∃ slot, Holds params mem slot key ∧ Visible mem slot

/-- The invariant of the slots, given what was passed to inserts. -/
structure TableOk (offered : Key → Value → Prop)
    (mem : Memory Key Value Op) : Prop where
  entry : ∀ slot, Occupied mem slot → ∃ key value,
    mem.entry slot = ⟨some key, some value, true⟩ ∧
      Visits params key slot ∧ offered key value
  packed : ∀ slot key, Occupied mem slot →
    (mem.entry slot).key = some key → ∀ earlier, Visits params key earlier →
      rank params key earlier < rank params key slot → Occupied mem earlier
  unique : ∀ one two key, Holds params mem one key →
    Holds params mem two key → one = two
  watched : ∀ slot value, (mem.entry slot).value = some value →
    value ∈ mem.valueSink

/-- The sizes of the buckets, and the buckets that may hold keys. -/
structure Laid (mem : Memory Key Value Op) (sized next filled : Nat) :
    Prop where
  backupSize : ∀ bucket, mem.backupSize bucket =
    if bucket < sized then bucketCapacity bucket else 0
  nextBucketSize : mem.nextBucketSize = bucketCapacity next
  filled : ∀ bucket i, Occupied mem (.backup bucket i) → bucket < filled

/-- No bucket is being added. -/
def Settled (mem : Memory Key Value Op) : Prop :=
  Laid mem mem.nAvailBuckets mem.nAvailBuckets mem.nAvailBuckets

/-- The comparator is an equivalence that the hash respects. -/
structure Parameters.Lawful : Prop where
  refl : ∀ key, params.keyComparator key key = true
  symm : ∀ one two, params.keyComparator one two = true →
    params.keyComparator two one = true
  trans : ∀ one two three, params.keyComparator one two = true →
    params.keyComparator two three = true →
      params.keyComparator one three = true
  hash : ∀ one two, params.keyComparator one two = true →
    params.hashKeyGetter one = params.hashKeyGetter two

/-! ## What an operation knows -/

/-- The slot that an insert is about to fill: the first free one. -/
def Claims (mem : Memory Key Value Op) (key : Key) (slot : Slot)
    (fresh : Option (Nat × Nat)) : Prop :=
  (match fresh with
    | none => Settled mem ∧ Visible mem slot
    | some (nBuckets, size) =>
        slot = .backup nBuckets 0 ∧ nBuckets = mem.nAvailBuckets ∧
          size = bucketCapacity nBuckets ∧
          Laid mem (nBuckets + 1) nBuckets nBuckets) ∧
    Visits params key slot ∧ ¬ Occupied mem slot ∧
    Behind params mem key (rank params key slot)

/-- A table with as many buckets as it can have, or one with the key. -/
def Served (mem : Memory Key Value Op) (key : Key) : Prop :=
  maxBTBuckets ≤ mem.nAvailBuckets ∨ Stored params mem key

/-- What an insert with a key and a value knows. -/
def InsertOk (mem : Memory Key Value Op) (key : Key) (value : Value) :
    Pc Value → Prop
  | .idle => True
  | .scan .optimistic (.table i) => CursorOk params key (.table i)
  | .scan .locked (.table i) =>
      Settled mem ∧ CursorOk params key (.table i) ∧ Behind params mem key i
  | .scan .locked (.backup nBuckets bucket i) =>
      Settled mem ∧ nBuckets = mem.nAvailBuckets ∧
        CursorOk params key (.backup nBuckets bucket i) ∧
        Behind params mem key (rank params key (.backup bucket i))
  | .scan _ _ => False
  | .compare .optimistic (.table i) =>
      Occupied mem (.table i) ∧ Visits params key (.table i)
  | .compare .locked (.table i) =>
      Settled mem ∧ Occupied mem (.table i) ∧
        Visits params key (.table i) ∧ Behind params mem key i
  | .compare .locked (.backup nBuckets bucket i) =>
      Settled mem ∧ Occupied mem (.backup bucket i) ∧
        nBuckets = mem.nAvailBuckets ∧ bucket < nBuckets ∧
        Visits params key (.backup bucket i) ∧
        Behind params mem key (rank params key (.backup bucket i))
  | .compare _ _ => False
  | .loadBuckets act =>
      act = .locked ∧ Settled mem ∧
        Behind params mem key (params.endIdx key)
  | .check act slot | .watch act slot =>
      act ≠ .query ∧ (act = .locked → Settled mem) ∧
        Holds params mem slot key ∧ Visible mem slot
  | .store act slot =>
      act ≠ .query ∧ (act = .locked → Settled mem) ∧
        Holds params mem slot key ∧ Visible mem slot ∧
        value ∈ mem.valueSink
  | .readValue act slot =>
      act = .locked ∧ Settled mem ∧ Holds params mem slot key ∧
        Visible mem slot
  | .lock => True
  | .grow nBuckets =>
      Settled mem ∧ nBuckets = mem.nAvailBuckets ∧
        Behind params mem key (rank params key (.backup nBuckets 0))
  | .resize nBuckets size =>
      Settled mem ∧ nBuckets = mem.nAvailBuckets ∧
        size = bucketCapacity nBuckets ∧
        Behind params mem key (rank params key (.backup nBuckets 0))
  | .clear nBuckets _ size =>
      nBuckets = mem.nAvailBuckets ∧ size = bucketCapacity nBuckets ∧
        Laid mem (nBuckets + 1) nBuckets nBuckets ∧
        Behind params mem key (rank params key (.backup nBuckets 0))
  | .watchNew slot fresh => Claims params mem key slot fresh
  | .writeKey slot fresh =>
      Claims params mem key slot fresh ∧ value ∈ mem.valueSink
  | .writeValue slot fresh =>
      Claims params mem key slot fresh ∧ value ∈ mem.valueSink ∧
        (mem.entry slot).key = some key
  | .writeFree slot fresh | .occupy slot fresh =>
      Claims params mem key slot fresh ∧ value ∈ mem.valueSink ∧
        (mem.entry slot).key = some key ∧
        (mem.entry slot).value = some value
  | .storeNextSize nBuckets size =>
      nBuckets = mem.nAvailBuckets ∧ size = bucketCapacity nBuckets ∧
        Laid mem (nBuckets + 1) nBuckets (nBuckets + 1) ∧
        Holds params mem (.backup nBuckets 0) key
  | .storeCount nBuckets =>
      nBuckets = mem.nAvailBuckets ∧
        Laid mem (nBuckets + 1) (nBuckets + 1) (nBuckets + 1) ∧
        Holds params mem (.backup nBuckets 0) key
  | .unlock _ => Settled mem ∧ Served params mem key
  | .returned _ => Served params mem key

/-- What a query of a key knows. -/
def QueryOk (offered : Key → Value → Prop) (mem : Memory Key Value Op)
    (key : Key) : Pc Value → Prop
  | .idle => True
  | .scan act cursor => act = .query ∧ CursorOk params key cursor
  | .compare act cursor =>
      act = .query ∧ Occupied mem cursor.slot ∧
        Visits params key cursor.slot ∧ CursorOk params key cursor
  | .loadBuckets act => act = .query
  | .readValue act slot => act = .query ∧ Holds params mem slot key
  | .returned result => ∀ value, result = some value → offered key value
  | _ => False

/-- The steps that an insert takes under the mutex. -/
def InLock : Pc Value → Bool
  | .scan act _ | .compare act _ | .loadBuckets act | .check act _
  | .watch act _ | .store act _ | .readValue act _ => act = .locked
  | .grow _ | .resize .. | .clear .. | .watchNew .. | .writeKey ..
  | .writeValue .. | .writeFree .. | .occupy .. | .storeNextSize ..
  | .storeCount _ | .unlock _ => true
  | .idle | .lock | .returned _ => false

/-! ## What a step leaves as it was -/

/-- Occupied slots keep their keys, and nothing is taken back. -/
structure Extends (mem after : Memory Key Value Op) : Prop where
  kept : ∀ slot, Occupied mem slot →
    Occupied after slot ∧ (after.entry slot).key = (mem.entry slot).key
  sink : ∀ value, value ∈ mem.valueSink → value ∈ after.valueSink
  count : mem.nAvailBuckets ≤ after.nAvailBuckets

/-- The same slots are occupied by the same keys. -/
structure SameKeys (mem after : Memory Key Value Op) : Prop where
  occupied : ∀ slot, (after.entry slot).isOccupied =
    (mem.entry slot).isOccupied
  key : ∀ slot, Occupied mem slot →
    (after.entry slot).key = (mem.entry slot).key
  sink : ∀ value, value ∈ mem.valueSink → value ∈ after.valueSink

/-- The same slots are occupied by the same keys, in the same buckets. -/
structure Steady (mem after : Memory Key Value Op) : Prop
    extends SameKeys mem after where
  backupSize : after.backupSize = mem.backupSize
  nAvailBuckets : after.nAvailBuckets = mem.nAvailBuckets
  nextBucketSize : after.nextBucketSize = mem.nextBucketSize

/-- Without the mutex only the values of occupied slots change. -/
structure Quiet (mem after : Memory Key Value Op) : Prop
    extends Steady mem after where
  free : ∀ slot, ¬ Occupied mem slot → after.entry slot = mem.entry slot

variable {params} {mem after : Memory Key Value Op} {key : Key}

theorem keyMatches_congr {slot : Slot}
    (same : (after.entry slot).key = (mem.entry slot).key) :
    keyMatches params after slot key = keyMatches params mem slot key := by
  unfold keyMatches
  rw [same]

theorem Extends.refl (mem : Memory Key Value Op) : Extends mem mem :=
  ⟨fun _ occupied => ⟨occupied, rfl⟩, fun _ member => member, le_refl _⟩

theorem Extends.trans {later : Memory Key Value Op}
    (first : Extends mem after) (second : Extends after later) :
    Extends mem later := by
  refine ⟨?_, fun value member => second.sink value (first.sink value member),
    le_trans first.count second.count⟩
  intro slot occupied
  rcases first.kept slot occupied with ⟨still, same⟩
  rcases second.kept slot still with ⟨held, kept⟩
  exact ⟨held, kept.trans same⟩

theorem Extends.holds (extend : Extends mem after) {slot : Slot}
    (holds : Holds params mem slot key) : Holds params after slot key := by
  rcases extend.kept slot holds.1 with ⟨occupied, same⟩
  exact ⟨occupied, (keyMatches_congr same).trans holds.2⟩

theorem Extends.visible (extend : Extends mem after) {slot : Slot}
    (visible : Visible mem slot) : Visible after slot := by
  cases slot with
  | table i => trivial
  | backup bucket i => exact lt_of_lt_of_le visible extend.count

theorem Extends.stored (extend : Extends mem after)
    (stored : Stored params mem key) : Stored params after key := by
  rcases stored with ⟨slot, holds, visible⟩
  exact ⟨slot, extend.holds holds, extend.visible visible⟩

theorem Extends.served (extend : Extends mem after)
    (served : Served params mem key) : Served params after key :=
  served.imp (fun full => le_trans full extend.count) extend.stored

namespace SameKeys

theorem occupied_iff (same : SameKeys mem after) (slot : Slot) :
    Occupied after slot ↔ Occupied mem slot := by
  unfold Occupied
  rw [same.occupied]

theorem extend (same : SameKeys mem after)
    (count : mem.nAvailBuckets ≤ after.nAvailBuckets) :
    Extends mem after :=
  ⟨fun slot occupied =>
      ⟨(same.occupied_iff slot).mpr occupied, same.key slot occupied⟩,
    same.sink, count⟩

theorem behind (same : SameKeys mem after) {place : Nat}
    (behind : Behind params mem key place) :
    Behind params after key place := by
  intro slot visits before
  rcases behind slot visits before with ⟨occupied, other⟩
  refine ⟨(same.occupied_iff slot).mpr occupied, ?_⟩
  rwa [keyMatches_congr (same.key slot occupied)]

end SameKeys

namespace Steady

theorem extend (steady : Steady mem after) : Extends mem after :=
  steady.toSameKeys.extend (le_of_eq steady.nAvailBuckets.symm)

theorem laid (steady : Steady mem after) {sized next filled : Nat}
    (laid : Laid mem sized next filled) : Laid after sized next filled := by
  refine ⟨?_, ?_, ?_⟩
  · rw [steady.backupSize]
    exact laid.backupSize
  · rw [steady.nextBucketSize]
    exact laid.nextBucketSize
  · intro bucket i occupied
    exact laid.filled bucket i ((steady.occupied_iff _).mp occupied)

theorem settled (steady : Steady mem after) (settled : Settled mem) :
    Settled after := by
  unfold Settled
  rw [steady.nAvailBuckets]
  exact steady.laid settled

theorem claims (steady : Steady mem after) {slot : Slot}
    {fresh : Option (Nat × Nat)} (claims : Claims params mem key slot fresh) :
    Claims params after key slot fresh := by
  rcases claims with ⟨place, visits, free, behind⟩
  refine ⟨?_, visits, ?_, steady.behind behind⟩
  · cases fresh with
    | none => exact ⟨steady.settled place.1, steady.extend.visible place.2⟩
    | some bucket =>
        rcases place with ⟨first, count, size, laid⟩
        exact ⟨first, count.trans steady.nAvailBuckets.symm, size,
          steady.laid laid⟩
  · rwa [steady.occupied_iff]

end Steady

/-- Outside the mutex an insert relies on nothing that others may change. -/
theorem InsertOk.extend {value : Value} {pc : Pc Value}
    (ok : InsertOk params mem key value pc) (outside : InLock pc = false)
    (extend : Extends mem after) : InsertOk params after key value pc := by
  have unlocked : ∀ act : Activity, decide (act = .locked) = false →
      act ≠ .locked := fun _ => of_decide_eq_false
  cases pc with
  | idle | lock => trivial
  | scan act cursor =>
      cases act with
      | locked => cases outside
      | query => cases cursor <;> exact ok
      | optimistic => cases cursor <;> exact ok
  | compare act cursor =>
      cases act with
      | locked => cases outside
      | query => cases cursor <;> exact ok
      | optimistic =>
          cases cursor with
          | table i => exact ⟨(extend.kept _ ok.1).1, ok.2⟩
          | backup => exact ok
  | loadBuckets act => exact absurd ok.1 (unlocked act outside)
  | readValue act => exact absurd ok.1 (unlocked act outside)
  | check act slot | watch act slot =>
      rcases ok with ⟨inserts, -, holds, visible⟩
      exact ⟨inserts, fun locked => absurd locked (unlocked act outside),
        extend.holds holds, extend.visible visible⟩
  | store act slot =>
      rcases ok with ⟨inserts, -, holds, visible, watched⟩
      exact ⟨inserts, fun locked => absurd locked (unlocked act outside),
        extend.holds holds, extend.visible visible, extend.sink value watched⟩
  | returned result => exact extend.served ok
  | grow | resize | clear | watchNew | writeKey | writeValue | writeFree
  | occupy | storeNextSize | storeCount | unlock => cases outside

/-- Under the mutex an insert relies on what nobody changes without it. -/
theorem InsertOk.quiet {value : Value} {pc : Pc Value}
    (ok : InsertOk params mem key value pc) (quiet : Quiet mem after) :
    InsertOk params after key value pc := by
  have extend := quiet.toSteady.extend
  have count := quiet.nAvailBuckets.symm
  cases pc with
  | idle | lock => trivial
  | scan act cursor =>
      cases act with
      | query => cases cursor <;> exact ok
      | optimistic => cases cursor <;> exact ok
      | locked =>
          cases cursor with
          | table i =>
              exact ⟨quiet.settled ok.1, ok.2.1, quiet.behind ok.2.2⟩
          | backup nBuckets bucket i =>
              rcases ok with ⟨settled, loaded, cursor, behind⟩
              exact ⟨quiet.settled settled, loaded.trans count, cursor,
                quiet.behind behind⟩
  | compare act cursor =>
      cases act with
      | query => cases cursor <;> exact ok
      | optimistic =>
          cases cursor with
          | table i => exact ⟨(extend.kept _ ok.1).1, ok.2⟩
          | backup => exact ok
      | locked =>
          cases cursor with
          | table i =>
              rcases ok with ⟨settled, occupied, visits, behind⟩
              exact ⟨quiet.settled settled, (extend.kept _ occupied).1,
                visits, quiet.behind behind⟩
          | backup nBuckets bucket i =>
              rcases ok with ⟨settled, occupied, loaded, inside, visits,
                behind⟩
              exact ⟨quiet.settled settled, (extend.kept _ occupied).1,
                loaded.trans count, inside, visits, quiet.behind behind⟩
  | loadBuckets act =>
      exact ⟨ok.1, quiet.settled ok.2.1, quiet.behind ok.2.2⟩
  | readValue act slot =>
      rcases ok with ⟨locked, settled, holds, visible⟩
      exact ⟨locked, quiet.settled settled, extend.holds holds,
        extend.visible visible⟩
  | check act slot | watch act slot =>
      rcases ok with ⟨inserts, settled, holds, visible⟩
      exact ⟨inserts, fun locked => quiet.settled (settled locked),
        extend.holds holds, extend.visible visible⟩
  | store act slot =>
      rcases ok with ⟨inserts, settled, holds, visible, watched⟩
      exact ⟨inserts, fun locked => quiet.settled (settled locked),
        extend.holds holds, extend.visible visible, extend.sink value watched⟩
  | grow nBuckets =>
      rcases ok with ⟨settled, loaded, behind⟩
      exact ⟨quiet.settled settled, loaded.trans count, quiet.behind behind⟩
  | resize nBuckets size =>
      rcases ok with ⟨settled, loaded, sized, behind⟩
      exact ⟨quiet.settled settled, loaded.trans count, sized,
        quiet.behind behind⟩
  | clear nBuckets i size =>
      rcases ok with ⟨loaded, sized, laid, behind⟩
      exact ⟨loaded.trans count, sized, quiet.laid laid, quiet.behind behind⟩
  | watchNew slot fresh => exact quiet.claims ok
  | writeKey slot fresh =>
      exact ⟨quiet.claims ok.1, extend.sink value ok.2⟩
  | writeValue slot fresh =>
      rcases ok with ⟨claims, watched, wrote⟩
      have same := quiet.free slot claims.2.2.1
      exact ⟨quiet.claims claims, extend.sink value watched, same ▸ wrote⟩
  | writeFree slot fresh | occupy slot fresh =>
      rcases ok with ⟨claims, watched, wroteKey, wroteValue⟩
      have same := quiet.free slot claims.2.2.1
      exact ⟨quiet.claims claims, extend.sink value watched,
        same ▸ wroteKey, same ▸ wroteValue⟩
  | storeNextSize nBuckets size =>
      rcases ok with ⟨loaded, sized, laid, holds⟩
      exact ⟨loaded.trans count, sized, quiet.laid laid, extend.holds holds⟩
  | storeCount nBuckets =>
      rcases ok with ⟨loaded, laid, holds⟩
      exact ⟨loaded.trans count, quiet.laid laid, extend.holds holds⟩
  | unlock result => exact ⟨quiet.settled ok.1, extend.served ok.2⟩
  | returned result => exact extend.served ok

/-- A query relies on nothing that others may change. -/
theorem QueryOk.extend {offered supplied : Key → Value → Prop}
    {pc : Pc Value} (ok : QueryOk params offered mem key pc)
    (extend : Extends mem after)
    (more : ∀ key value, offered key value → supplied key value) :
    QueryOk params supplied after key pc := by
  cases pc with
  | compare act cursor =>
      exact ⟨ok.1, (extend.kept _ ok.2.1).1, ok.2.2⟩
  | readValue act slot => exact ⟨ok.1, extend.holds ok.2⟩
  | returned result =>
      intro value found
      exact more key value (ok value found)
  | _ => exact ok

end AoclDlp.KernelRegister.DispatchTable
