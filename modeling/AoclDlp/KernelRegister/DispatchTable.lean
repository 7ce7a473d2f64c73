import AoclDlp.Foundations.Transition
import Mathlib.Data.Nat.Init
import Mathlib.Logic.Function.Basic

/-!
# The kernel dispatch table

`ThreadSafeChainedDispatchTable` keeps kernels by key.  A key hashes to a chain
of the main table; a full chain overflows into backup buckets that double in
size.  Values are replaced without a lock; new keys are added under a mutex,
after the chain has been scanned again.

An operation is one call of `insert` or `query`, and one of its steps performs
at most one access to the shared memory.  Operations take their steps in any
order, so a schedule is a list of operations.
-/

namespace AoclDlp.KernelRegister.DispatchTable

open AoclDlp.Foundations.Transition

/-! ## Keys -/

/-- The template parameters, the functors of the callers and the `std::hash`
of the implementation. -/
structure Parameters (Key : Type) where
  tableSize : Nat
  chainSize : Nat
  hashKeyGetter : Key → BitVec 64 × BitVec 64
  keyComparator : Key → Key → Bool
  hasher : BitVec 64 → BitVec 64

/-- `maxBTBuckets`. -/
def maxBTBuckets : Nat :=
  128

/-- `baseBucketSize`. -/
def baseBucketSize : Nat :=
  128

/-- The slots of a backup bucket. -/
def bucketCapacity (bucket : Nat) : Nat :=
  baseBucketSize <<< bucket

namespace Parameters

variable {Key : Type}

/-- `hash_combine`. -/
def hashCombine (params : Parameters Key) (seed value : BitVec 64) :
    BitVec 64 :=
  seed ^^^ (params.hasher value + 0x9e3779b9#64 + (seed <<< 6) + (seed >>> 2))

/-- `hash_key`. -/
def hashKey (params : Parameters Key) (key : BitVec 64 × BitVec 64) : Nat :=
  (params.hashCombine (params.hashCombine 0 key.1) key.2).toNat %
    params.tableSize

/-- The chain of a key. -/
def index (params : Parameters Key) (key : Key) : Nat :=
  params.hashKey (params.hashKeyGetter key)

/-- The first slot of the chain of a key. -/
def startIdx (params : Parameters Key) (key : Key) : Nat :=
  params.index key * params.chainSize

/-- The slot after the chain of a key. -/
def endIdx (params : Parameters Key) (key : Key) : Nat :=
  (params.index key + 1) * params.chainSize

end Parameters

/-! ## Memory -/

/-- A slot of the main table or of a backup bucket. -/
inductive Slot where
  | table (i : Nat)
  | backup (bucket i : Nat)
  deriving DecidableEq, Repr

/-- `Entry`. -/
structure Entry (Key Value : Type) where
  key : Option Key
  value : Option Value
  isOccupied : Bool
  deriving DecidableEq, Repr

variable {Key Value Op : Type}

/-- The shared memory; `valueSink` is what the watcher collected. -/
structure Memory (Key Value Op : Type) where
  entry : Slot → Entry Key Value
  backupSize : Nat → Nat
  nAvailBuckets : Nat
  nextBucketSize : Nat
  mtx : Option Op
  valueSink : List Value

namespace Memory

/-- The constructor. -/
def initial : Memory Key Value Op where
  entry _ := ⟨none, none, false⟩
  backupSize bucket := if bucket = 0 then baseBucketSize else 0
  nAvailBuckets := 1
  nextBucketSize := baseBucketSize * 2
  mtx := none
  valueSink := []

/-- Write a slot. -/
def setEntry (mem : Memory Key Value Op) (slot : Slot)
    (entry : Entry Key Value) : Memory Key Value Op :=
  { mem with entry := Function.update mem.entry slot entry }

/-- `VALUE_WATCHER`. -/
def sinkCollect (mem : Memory Key Value Op) (value : Value) :
    Memory Key Value Op :=
  { mem with valueSink := mem.valueSink ++ [value] }

/-- `resize` of a backup bucket that has no entries. -/
def resize (mem : Memory Key Value Op) (bucket size : Nat) :
    Memory Key Value Op :=
  { mem with
    entry := fun slot =>
      match slot with
      | .table i => mem.entry (.table i)
      | .backup found i =>
          if found = bucket then ⟨none, none, false⟩
          else mem.entry (.backup found i)
    backupSize := Function.update mem.backupSize bucket size }

end Memory

/-! ## Operations -/

/-- A call, with pointers that may be null. -/
inductive Call (Key Value : Type) where
  | insert (key : Option Key) (value : Option Value)
  | query (key : Option Key)
  deriving DecidableEq, Repr

/-- Who scans: `insert` before and under its lock, and `query`. -/
inductive Activity where
  | optimistic
  | locked
  | query
  deriving DecidableEq, Repr

/-- Where a scan stands; the backup loops run to the count that was loaded. -/
inductive Cursor where
  | table (i : Nat)
  | backup (nBuckets bucket i : Nat)
  deriving DecidableEq, Repr

namespace Cursor

/-- The slot under a cursor. -/
def slot : Cursor → Slot
  | table i => .table i
  | backup _ bucket i => .backup bucket i

/-- The next iteration of the innermost loop. -/
def next : Cursor → Cursor
  | table i => table (i + 1)
  | backup nBuckets bucket i => backup nBuckets bucket (i + 1)

end Cursor

/-- The next step of an operation.  A fresh bucket is carried along with its
number and its size. -/
inductive Pc (Value : Type) where
  | idle
  | scan (act : Activity) (cursor : Cursor)
  | compare (act : Activity) (cursor : Cursor)
  | loadBuckets (act : Activity)
  | check (act : Activity) (slot : Slot)
  | watch (act : Activity) (slot : Slot)
  | store (act : Activity) (slot : Slot)
  | readValue (act : Activity) (slot : Slot)
  | lock
  | grow (nBuckets : Nat)
  | resize (nBuckets size : Nat)
  | clear (nBuckets i size : Nat)
  | watchNew (slot : Slot) (fresh : Option (Nat × Nat))
  | writeKey (slot : Slot) (fresh : Option (Nat × Nat))
  | writeValue (slot : Slot) (fresh : Option (Nat × Nat))
  | writeFree (slot : Slot) (fresh : Option (Nat × Nat))
  | occupy (slot : Slot) (fresh : Option (Nat × Nat))
  | storeNextSize (nBuckets size : Nat)
  | storeCount (nBuckets : Nat)
  | unlock (result : Option Value)
  | returned (result : Option Value)
  deriving DecidableEq, Repr

variable (params : Parameters Key)

/-- The loop heads of the scans, with the load of `isOccupied`. -/
def scanStep (key : Key) (mem : Memory Key Value Op) (act : Activity) :
    Cursor → Pc Value
  | .table i =>
      if i < params.endIdx key then
        if (mem.entry (.table i)).isOccupied then .compare act (.table i)
        else if act = .locked then .watchNew (.table i) none
        else .scan act (.table (i + 1))
      else if act = .optimistic then .lock
      else .loadBuckets act
  | .backup nBuckets bucket i =>
      if bucket < nBuckets then
        if i < bucketCapacity bucket then
          if (mem.entry (.backup bucket i)).isOccupied then
            .compare act (.backup nBuckets bucket i)
          else if act = .locked then .watchNew (.backup bucket i) none
          else .scan act (.backup nBuckets bucket (i + 1))
        else .scan act (.backup nBuckets (bucket + 1) 0)
      else if act = .locked then .grow nBuckets
      else .returned none

/-- Whether the key of a slot is equal to a key. -/
def keyMatches (mem : Memory Key Value Op) (slot : Slot) (key : Key) : Bool :=
  match (mem.entry slot).key with
  | none => false
  | some stored => params.keyComparator stored key

/-- `KEY_COMPARATOR` in a scan. -/
def compareStep (key : Key) (mem : Memory Key Value Op) (act : Activity)
    (cursor : Cursor) : Pc Value :=
  if keyMatches params mem cursor.slot key then
    if act = .query then .readValue act cursor.slot else .check act cursor.slot
  else .scan act cursor.next

/-- What an insert does once the slot of its key has its value. -/
def updated (act : Activity) (slot : Slot) (value : Value) : Pc Value :=
  if act = .optimistic then .returned (some value) else .readValue act slot

variable [DecidableEq Value]

/-- One step of `insert` with a key and a value. -/
def insertStep (op : Op) (key : Key) (value : Value)
    (mem : Memory Key Value Op) : Pc Value → Memory Key Value Op × Pc Value
  | .idle => (mem, .scan .optimistic (.table (params.startIdx key)))
  | .scan act cursor => (mem, scanStep params key mem act cursor)
  | .compare act cursor => (mem, compareStep params key mem act cursor)
  | .loadBuckets act => (mem, .scan act (.backup mem.nAvailBuckets 0 0))
  | .check act slot =>
      (mem, if (mem.entry slot).value ≠ some value then .watch act slot
        else updated act slot value)
  | .watch act slot => (mem.sinkCollect value, .store act slot)
  | .store act slot =>
      (mem.setEntry slot { mem.entry slot with value := some value },
        updated act slot value)
  | .readValue _ slot => (mem, .unlock (mem.entry slot).value)
  | .lock =>
      match mem.mtx with
      | none =>
          ({ mem with mtx := some op },
            .scan .locked (.table (params.startIdx key)))
      | some _ => (mem, .lock)
  | .grow nBuckets =>
      (mem, if nBuckets = maxBTBuckets then .unlock none
        else .resize nBuckets mem.nextBucketSize)
  | .resize nBuckets size =>
      (mem.resize nBuckets size, .clear nBuckets 0 size)
  | .clear nBuckets i size =>
      if i < size then
        (mem.setEntry (.backup nBuckets i)
          { mem.entry (.backup nBuckets i) with isOccupied := false },
          .clear nBuckets (i + 1) size)
      else (mem, .watchNew (.backup nBuckets 0) (some (nBuckets, size)))
  | .watchNew slot fresh => (mem.sinkCollect value, .writeKey slot fresh)
  | .writeKey slot fresh =>
      (mem.setEntry slot { mem.entry slot with key := some key },
        .writeValue slot fresh)
  | .writeValue slot fresh =>
      (mem.setEntry slot { mem.entry slot with value := some value },
        .writeFree slot fresh)
  | .writeFree slot fresh =>
      (mem.setEntry slot { mem.entry slot with isOccupied := false },
        .occupy slot fresh)
  | .occupy slot fresh =>
      (mem.setEntry slot { mem.entry slot with isOccupied := true },
        match fresh with
        | none => .readValue .locked slot
        | some (nBuckets, size) => .storeNextSize nBuckets size)
  | .storeNextSize nBuckets size =>
      ({ mem with nextBucketSize := size * 2 }, .storeCount nBuckets)
  | .storeCount nBuckets =>
      ({ mem with nAvailBuckets := nBuckets + 1 },
        .readValue .locked (.backup nBuckets 0))
  | .unlock result => ({ mem with mtx := none }, .returned result)
  | .returned result => (mem, .returned result)

/-- One step of `query` with a key. -/
def queryStep (key : Key) (mem : Memory Key Value Op) : Pc Value → Pc Value
  | .idle => .scan .query (.table (params.startIdx key))
  | .scan act cursor => scanStep params key mem act cursor
  | .compare act cursor => compareStep params key mem act cursor
  | .loadBuckets act => .scan act (.backup mem.nAvailBuckets 0 0)
  | .readValue _ slot => .returned (mem.entry slot).value
  | pc => pc

/-- One step of a call; null arguments return at once. -/
def execute (op : Op) (call : Call Key Value) (mem : Memory Key Value Op)
    (pc : Pc Value) : Memory Key Value Op × Pc Value :=
  match call with
  | .insert (some key) (some value) => insertStep params op key value mem pc
  | .query (some key) => (mem, queryStep params key mem pc)
  | _ => (mem, .returned none)

/-! ## Runs -/

/-- The memory and the operations. -/
structure State (Key Value Op : Type) where
  mem : Memory Key Value Op
  pc : Op → Pc Value

variable [DecidableEq Op]

/-- One step of an operation of the program. -/
def perform (call : Op → Call Key Value) (op : Op)
    (state : State Key Value Op) : State Key Value Op :=
  let after := execute params op (call op) state.mem (state.pc op)
  ⟨after.1, Function.update state.pc op after.2⟩

/-- The table before the first operation. -/
def initial : State Key Value Op :=
  ⟨.initial, fun _ => .idle⟩

/-- The state after a schedule. -/
def runFrom (call : Op → Call Key Value) (state : State Key Value Op)
    (schedule : List Op) : State Key Value Op :=
  Machine.runActions (perform params call) state schedule

end AoclDlp.KernelRegister.DispatchTable
