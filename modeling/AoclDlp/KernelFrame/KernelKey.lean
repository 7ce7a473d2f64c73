import AoclDlp.DecisionEngine.KernelInit
import AoclDlp.DecisionEngine.Scaling
import AoclDlp.Foundations.Ownership
import AoclDlp.Foundations.Transition
import Mathlib.Data.List.Basic

/-!
# Kernel keys

`kernelInfo` is the key under which kernels are cached.  It owns an array of
post-op descriptions through a raw pointer and keeps the length in a field of
its own, so its constructors and assignments maintain both by hand.

A state holds the live objects and the arrays they own.  In the full
constructor the parameter `kOpsArr` hides the member of that name, and the
member's initialiser releases it before the length is taken; the assignments
write the length only when the source has operations.
-/

namespace AoclDlp.KernelFrame.KernelKey

open AoclDlp.Config.BlockSize
open AoclDlp.DecisionEngine.KernelInit (KernelInstrPreference)
open AoclDlp.DecisionEngine.Scaling (ScalingType)
open AoclDlp.Foundations.Ownership
open AoclDlp.Foundations.Transition

/-! ## The data -/

/-- `kernelOps`. -/
inductive KernelOps where
  | invalid
  | bias
  | geluTanh
  | geluErf
  | relu
  | reluScale
  | clip
  | downscale
  | matAdd
  | matMul
  | swish
  | tanh
  | sigmoid
  | aDQuantize
  | mish
  | gatedSwiglu
  | gatedSwigluAndMul
  | maxKernelOps
  deriving DecidableEq, Repr

/-- `DataType`. -/
inductive DataType where
  | invalid
  | s4
  | u4
  | f4
  | s8
  | u8
  | s16
  | u16
  | f16
  | bf16
  | s32
  | u32
  | f32
  | maxDatatypes
  deriving DecidableEq, Repr

/-- `ParamDim`. -/
inductive ParamDim where
  | invalid
  | scalar
  | perN
  | perM
  | perGroup
  deriving DecidableEq, Repr

/-- `storageFormat`. -/
inductive StorageFormat where
  | rowMajor
  | colMajor
  deriving DecidableEq, Repr

/-- `kernelOpsMetaData`; its `operator==` compares every field. -/
structure KernelOpsMetaData where
  type : KernelOps
  scaleFactorDt : DataType
  sfDim : ParamDim
  zeroPointDt : DataType
  zpDim : ParamDim
  paramStorageDt : DataType
  cMatFormat : StorageFormat
  biasDim : ParamDim
  deriving DecidableEq, Repr

/-- The members of `kernelInfo` other than the array and its length. -/
structure KernelFields where
  mr : Int
  nr : Int
  termFringeNr : Int
  kUnroll : Int
  kc : Int
  prefetchCDist : Int
  alphaScalingType : ScalingType
  betaScalingType : ScalingType
  mtagA : MemoryTag
  mtagB : MemoryTag
  genLtKrnlForAvailFullKrnl : Bool
  invokeRD : Bool
  anyKOpsOrder : Bool
  kInstPref : KernelInstrPreference
  cDownscale : Int
  skinnyN : Bool
  aliasMrSplit : Bool
  deriving DecidableEq, Repr

/-- `kernelInfo`. -/
structure KernelInfo where
  fields : KernelFields
  kOpsArr : Option Nat
  kOpsArrSize : Nat
  deriving DecidableEq, Repr

/-- The arrays of the program. -/
abbrev Arrays :=
  Arena (List KernelOpsMetaData)

/-- One element of an array. -/
def element (arrays : Arrays) (pointer : Option Nat) (index : Nat) :
    Option KernelOpsMetaData :=
  (arrays.read pointer).bind fun array => array[index]?

/-- `operator==`. -/
def operatorEq (arrays : Arrays) (lhs rhs : KernelInfo) : Bool :=
  let isKOpsArrEqual :=
    if lhs.kOpsArr.isSome && rhs.kOpsArr.isSome then
      if lhs.kOpsArrSize = rhs.kOpsArrSize then
        (List.range lhs.kOpsArrSize).all fun i =>
          element arrays lhs.kOpsArr i == element arrays rhs.kOpsArr i
      else false
    else true
  lhs.fields == rhs.fields && lhs.kOpsArrSize == rhs.kOpsArrSize &&
    isKOpsArrEqual

/-- `gemmHashKeyGetter`. -/
def gemmHashKeyGetter (info : KernelInfo) : BitVec 64 × BitVec 64 :=
  (.ofInt 64 info.fields.mr, .ofInt 64 info.fields.nr)

/-- The pointer is set and the length is positive. -/
def hasOps (kOpsArr : Option Nat) (kOpsArrSize : Nat) : Bool :=
  kOpsArr.isSome && decide (0 < kOpsArrSize)

/-! ## Objects -/

variable {Obj : Type}

/-- The live objects and the arrays. -/
structure Store (Obj : Type) where
  object : Obj → Option KernelInfo
  arrays : Arrays

variable [DecidableEq Obj]

/-- Write an object. -/
def Store.put (store : Store Obj) (obj : Obj) (info : KernelInfo)
    (arrays : Arrays) : Store Obj :=
  ⟨Function.update store.object obj (some info), arrays⟩

/-- The full constructor; the caller allocated the array it passes. -/
def fullConstructor (store : Store Obj) (dst : Obj) (fields : KernelFields)
    (array : Option (List KernelOpsMetaData)) (size : Nat) : Store Obj :=
  match array with
  | none => store.put dst ⟨fields, none, 0⟩ store.arrays
  | some ops =>
      let arrays := store.arrays.alloc ops
      let param := some store.arrays.next
      let kOpsArr := if hasOps param size then param else none
      let released := if hasOps param size then none else param
      let kOpsArrSize := if hasOps released size then size else 0
      store.put dst ⟨fields, kOpsArr, kOpsArrSize⟩ (arrays.free released)

/-- The default constructor, which leaves `invokeRD` as it finds it. -/
def defaultConstructor (store : Store Obj) (dst : Obj) (invokeRD : Bool) :
    Store Obj :=
  store.put dst
    ⟨⟨0, 0, 0, 0, 0, 0, .generic, .generic, .unpacked, .unpacked, false,
      invokeRD, false, .none, 0, false, false⟩, none, 0⟩ store.arrays

/-- The first elements of an array, as the copy loops read them. -/
def copiedOps (arrays : Arrays) (info : KernelInfo) :
    List KernelOpsMetaData :=
  ((arrays.read info.kOpsArr).getD []).take info.kOpsArrSize

/-- The copy constructor. -/
def copyConstructor (store : Store Obj) (dst : Obj) (other : KernelInfo) :
    Store Obj :=
  if hasOps other.kOpsArr other.kOpsArrSize then
    store.put dst ⟨other.fields, some store.arrays.next, other.kOpsArrSize⟩
      (store.arrays.alloc (copiedOps store.arrays other))
  else store.put dst ⟨other.fields, none, 0⟩ store.arrays

/-- The move constructor, and the one that takes a pointer. -/
def moveConstructor (store : Store Obj) (dst src : Obj)
    (other : KernelInfo) : Store Obj :=
  if hasOps other.kOpsArr other.kOpsArrSize then
    (store.put src { other with kOpsArr := none, kOpsArrSize := 0 }
      store.arrays).put dst other store.arrays
  else store.put dst ⟨other.fields, none, 0⟩ store.arrays

/-- The copy assignment between two objects. -/
def copyAssignment (store : Store Obj) (dst : Obj)
    (this other : KernelInfo) : Store Obj :=
  let arrays := store.arrays.free this.kOpsArr
  if hasOps other.kOpsArr other.kOpsArrSize then
    store.put dst ⟨other.fields, some arrays.next, other.kOpsArrSize⟩
      (arrays.alloc (copiedOps arrays other))
  else store.put dst ⟨other.fields, none, this.kOpsArrSize⟩ arrays

/-- The move assignment between two objects. -/
def moveAssignment (store : Store Obj) (dst src : Obj)
    (this other : KernelInfo) : Store Obj :=
  let arrays := store.arrays.free this.kOpsArr
  if hasOps other.kOpsArr other.kOpsArrSize then
    (store.put src { other with kOpsArr := none, kOpsArrSize := 0 }
      arrays).put dst other arrays
  else store.put dst ⟨other.fields, none, this.kOpsArrSize⟩ arrays

/-- `checkPostOpsAndCreateKernelInfo`, with the descriptions that it derives
from the post-op list. -/
def checkPostOpsAndCreateKernelInfo (store : Store Obj) (dst : Obj)
    (fields : KernelFields) (postOps : List KernelOpsMetaData) :
    Store Obj :=
  if postOps.length = 0 then fullConstructor store dst fields none 0
  else
    store.put dst ⟨fields, some store.arrays.next, postOps.length⟩
      (store.arrays.alloc postOps)

/-- The destructor. -/
def destructor (store : Store Obj) (obj : Obj) (this : KernelInfo) :
    Store Obj :=
  ⟨Function.update store.object obj none, store.arrays.free this.kOpsArr⟩

/-! ## Runs -/

/-- What a program does with keys. -/
inductive Act (Obj : Type) where
  | full (dst : Obj) (fields : KernelFields)
      (array : Option (List KernelOpsMetaData)) (size : Nat)
  | default (dst : Obj) (invokeRD : Bool)
  | copy (dst src : Obj)
  | move (dst src : Obj)
  | pointerMove (dst src : Obj)
  | copyAssign (dst src : Obj)
  | moveAssign (dst src : Obj)
  | checkPostOps (dst : Obj) (fields : KernelFields)
      (postOps : List KernelOpsMetaData)
  | destroy (obj : Obj)

/-- Construct an object whose lifetime has not begun. -/
def constructAt (store : Store Obj) (dst : Obj) (built : Store Obj) :
    Store Obj :=
  if (store.object dst).isSome then store else built

/-- One action; actions on objects that are not there do nothing. -/
def perform (act : Act Obj) (store : Store Obj) : Store Obj :=
  match act with
  | .full dst fields array size =>
      constructAt store dst (fullConstructor store dst fields array size)
  | .default dst invokeRD =>
      constructAt store dst (defaultConstructor store dst invokeRD)
  | .checkPostOps dst fields postOps =>
      constructAt store dst
        (checkPostOpsAndCreateKernelInfo store dst fields postOps)
  | .copy dst src =>
      match store.object src with
      | none => store
      | some other => constructAt store dst (copyConstructor store dst other)
  | .move dst src | .pointerMove dst src =>
      match store.object src with
      | none => store
      | some other =>
          constructAt store dst (moveConstructor store dst src other)
  | .copyAssign dst src =>
      match store.object dst, store.object src with
      | some this, some other =>
          if dst = src then store else copyAssignment store dst this other
      | _, _ => store
  | .moveAssign dst src =>
      match store.object dst, store.object src with
      | some this, some other =>
          if dst = src then store
          else moveAssignment store dst src this other
      | _, _ => store
  | .destroy obj =>
      match store.object obj with
      | none => store
      | some this => destructor store obj this

/-- The program before its first key. -/
def initial : Store Obj :=
  ⟨fun _ => none, .empty⟩

/-- An object without operations may be assigned to anything; an object with
operations only to one that has some. -/
def KeepsLength (store : Store Obj) (dst src : Obj) : Prop :=
  dst = src ∨ ∀ this other, store.object dst = some this →
    store.object src = some other →
      0 < this.kOpsArrSize → 0 < other.kOpsArrSize

/-! ## The invariant -/

/-- The pointer that a live object holds. -/
def Store.pointer (store : Store Obj) (obj : Obj) : Option Nat :=
  (store.object obj).bind KernelInfo.kOpsArr

/-- The pointer and the length describe the same array. -/
def WellFormed (arrays : Arrays) (info : KernelInfo) : Prop :=
  (info.kOpsArr = none ∧ info.kOpsArrSize = 0) ∨
    ∃ ops, ops ≠ [] ∧ arrays.read info.kOpsArr = some ops ∧
      ops.length = info.kOpsArrSize

/-- Every live object owns its array and knows its length. -/
structure Keeps (store : Store Obj) : Prop where
  owns : Owns store.arrays store.pointer
  formed : ∀ obj info, store.object obj = some info →
    WellFormed store.arrays info

/-- What a key means: its fields and its list of operations. -/
def value (arrays : Arrays) (info : KernelInfo) :
    KernelFields × List KernelOpsMetaData :=
  (info.fields, copiedOps arrays info)

omit [DecidableEq Obj] in
theorem pointer_of_object {store : Store Obj} {obj : Obj}
    {info : KernelInfo} (here : store.object obj = some info) :
    store.pointer obj = info.kOpsArr := by
  unfold Store.pointer
  rw [here]
  rfl

theorem WellFormed.pointer_iff {arrays : Arrays} {info : KernelInfo}
    (formed : WellFormed arrays info) :
    info.kOpsArr ≠ none ↔ 0 < info.kOpsArrSize := by
  rcases formed with ⟨null, zero⟩ | ⟨ops, some_ops, found, length⟩
  · simp [null, zero]
  · have positive : 0 < info.kOpsArrSize := by
      rw [← length]
      exact List.length_pos_iff.mpr some_ops
    refine iff_of_true ?_ positive
    intro null
    rw [null] at found
    cases found

/-- The operations of an object with some are its whole array. -/
theorem WellFormed.array {arrays : Arrays} {info : KernelInfo}
    (formed : WellFormed arrays info) (positive : 0 < info.kOpsArrSize) :
    arrays.read info.kOpsArr = some (copiedOps arrays info) ∧
      (copiedOps arrays info).length = info.kOpsArrSize := by
  rcases formed with ⟨-, zero⟩ | ⟨ops, -, found, length⟩
  · omega
  · have whole : copiedOps arrays info = ops := by
      unfold copiedOps
      rw [found, Option.getD_some, ← length, List.take_length]
    rw [whole]
    exact ⟨found, length⟩

theorem WellFormed.hasOps_eq {arrays : Arrays} {info : KernelInfo}
    (formed : WellFormed arrays info) :
    hasOps info.kOpsArr info.kOpsArrSize =
      decide (0 < info.kOpsArrSize) := by
  unfold hasOps
  by_cases positive : 0 < info.kOpsArrSize
  · have set := formed.pointer_iff.mpr positive
    rw [Option.isSome_iff_ne_none.mpr set, Bool.true_and]
  · rw [decide_eq_false positive, Bool.and_false]

/-- An object without operations has neither pointer nor length. -/
theorem WellFormed.empty {arrays : Arrays} {info : KernelInfo}
    (formed : WellFormed arrays info) (none : ¬ 0 < info.kOpsArrSize) :
    info.kOpsArr = .none ∧ info.kOpsArrSize = 0 := by
  have zero : info.kOpsArrSize = 0 := by omega
  refine ⟨?_, zero⟩
  by_contra set
  exact none (formed.pointer_iff.mp set)

theorem WellFormed.congr {arrays others : Arrays} {info : KernelInfo}
    (same : others.read info.kOpsArr = arrays.read info.kOpsArr)
    (formed : WellFormed arrays info) : WellFormed others info := by
  unfold WellFormed at formed ⊢
  rw [same]
  exact formed

theorem copiedOps_congr {arrays others : Arrays} {info : KernelInfo}
    (same : others.read info.kOpsArr = arrays.read info.kOpsArr) :
    copiedOps others info = copiedOps arrays info := by
  unfold copiedOps
  rw [same]

theorem wellFormed_none (arrays : Arrays) (fields : KernelFields) :
    WellFormed arrays ⟨fields, none, 0⟩ :=
  Or.inl ⟨rfl, rfl⟩

/-- A fresh array and its length. -/
theorem wellFormed_fresh (arrays : Arrays) (fields : KernelFields)
    {ops : List KernelOpsMetaData} (some_ops : 0 < ops.length) :
    WellFormed (arrays.alloc ops) ⟨fields, some arrays.next, ops.length⟩ :=
  Or.inr ⟨ops, List.length_pos_iff.mp some_ops,
    Arena.read_alloc_next arrays ops, rfl⟩

theorem copiedOps_fresh (arrays : Arrays) (fields : KernelFields)
    (ops : List KernelOpsMetaData) :
    copiedOps (arrays.alloc ops) ⟨fields, some arrays.next, ops.length⟩ =
      ops := by
  unfold copiedOps
  rw [Arena.read_alloc_next, Option.getD_some, List.take_length]

theorem pointer_put (store : Store Obj) (dst : Obj) (info : KernelInfo)
    (arrays : Arrays) :
    (store.put dst info arrays).pointer =
      Function.update store.pointer dst info.kOpsArr := by
  funext obj
  by_cases same : obj = dst
  · subst obj
    simp [Store.pointer, Store.put]
  · simp [Store.pointer, Store.put, same]

/-- Writing one object whose array is its own. -/
theorem Keeps.put {store : Store Obj} {dst : Obj} {info : KernelInfo}
    {arrays : Arrays}
    (owns : Owns arrays (Function.update store.pointer dst info.kOpsArr))
    (written : WellFormed arrays info)
    (others : ∀ obj other, obj ≠ dst → store.object obj = some other →
      WellFormed arrays other) :
    Keeps (store.put dst info arrays) := by
  refine ⟨?_, ?_⟩
  · rw [pointer_put]
    exact owns
  · intro obj other here
    by_cases same : obj = dst
    · subst obj
      have found : some info = some other := by
        simpa [Store.put] using here
      cases found
      exact written
    · exact others obj other same (by simpa [Store.put, same] using here)

section Steps

variable {store : Store Obj} {dst src obj : Obj} {this other : KernelInfo}

omit [DecidableEq Obj] in
/-- The other objects keep their arrays when one is allocated. -/
theorem Keeps.formed_alloc (keeps : Keeps store)
    (here : store.object obj = some other) (ops : List KernelOpsMetaData) :
    WellFormed (store.arrays.alloc ops) other := by
  have same := keeps.owns.read_alloc ops obj
  rw [pointer_of_object here] at same
  exact (keeps.formed obj other here).congr same

omit [DecidableEq Obj] in
/-- The other objects keep their arrays when one is released. -/
theorem Keeps.read_free (keeps : Keeps store)
    (at_dst : store.object dst = some this)
    (here : store.object obj = some other) (apart : obj ≠ dst) :
    (store.arrays.free this.kOpsArr).read other.kOpsArr =
      store.arrays.read other.kOpsArr := by
  have same := keeps.owns.read_free apart
  rwa [pointer_of_object at_dst, pointer_of_object here] at same

/-- An object without operations is written over nothing. -/
theorem Keeps.putNone (keeps : Keeps store) (dst : Obj)
    (fields : KernelFields) :
    Keeps (store.put dst ⟨fields, none, 0⟩ store.arrays) :=
  Keeps.put (keeps.owns.drop dst) (wellFormed_none _ _)
    fun obj other _ here => keeps.formed obj other here

/-- An object with a fresh array is written over nothing. -/
theorem Keeps.putFresh (keeps : Keeps store) (dst : Obj)
    (fields : KernelFields) {ops : List KernelOpsMetaData}
    (some_ops : 0 < ops.length) :
    Keeps (store.put dst ⟨fields, some store.arrays.next, ops.length⟩
      (store.arrays.alloc ops)) :=
  Keeps.put (keeps.owns.alloc dst ops)
    (wellFormed_fresh store.arrays fields some_ops)
    fun _ _ _ here => keeps.formed_alloc here ops

/-- The full constructor without operations. -/
theorem Keeps.fullConstructor (keeps : Keeps store) (dst : Obj)
    (fields : KernelFields) (array : Option (List KernelOpsMetaData))
    (size : Nat) (plain : array = none ∨ size = 0) :
    Keeps (fullConstructor store dst fields array size) := by
  unfold KernelKey.fullConstructor
  cases array with
  | none => exact keeps.putNone dst fields
  | some ops =>
      have zero : size = 0 := plain.resolve_left (Option.some_ne_none ops)
      subst zero
      have unused (param : Option Nat) : hasOps param 0 = false := by
        simp [hasOps]
      dsimp only
      rw [unused, if_neg Bool.false_ne_true, if_neg Bool.false_ne_true,
        unused, if_neg Bool.false_ne_true]
      have held := keeps.owns.alloc dst ops
      have owns := held.free dst
      rw [Function.update_self, Function.update_idem] at owns
      refine Keeps.put owns (wellFormed_none _ _) ?_
      intro obj other apart here
      have same := held.read_free apart
      rw [Function.update_self, Function.update_of_ne apart,
        pointer_of_object here] at same
      exact (keeps.formed_alloc here ops).congr same

theorem Keeps.copyConstructor (keeps : Keeps store)
    (source : store.object src = some other) (dst : Obj) :
    Keeps (copyConstructor store dst other) := by
  have formed := keeps.formed src other source
  unfold KernelKey.copyConstructor
  rw [formed.hasOps_eq]
  by_cases positive : 0 < other.kOpsArrSize
  · have length := (formed.array positive).2
    rw [if_pos (decide_eq_true positive), ← length]
    exact keeps.putFresh dst other.fields (by omega)
  · rw [if_neg (by simpa using positive)]
    exact keeps.putNone dst other.fields

/-- The array of one object passes to another. -/
theorem Keeps.transfer (keeps : Keeps store)
    (source : store.object src = some other) (dst : Obj) :
    Keeps ((store.put src
      { other with kOpsArr := none, kOpsArrSize := 0 } store.arrays).put dst
        other store.arrays) := by
  have owns := keeps.owns.move dst src
  rw [pointer_of_object source] at owns
  have formed := keeps.formed src other source
  refine Keeps.put ?_ formed ?_
  · rw [pointer_put]
    exact owns
  · intro obj found different here
    by_cases atSource : obj = src
    · subst obj
      have moved : some { other with kOpsArr := none, kOpsArrSize := 0 } =
          some found := by
        simpa [Store.put] using here
      cases moved
      exact wellFormed_none _ _
    · exact keeps.formed obj found (by
        simpa [Store.put, atSource] using here)

theorem Keeps.moveConstructor (keeps : Keeps store)
    (source : store.object src = some other) (dst : Obj) :
    Keeps (moveConstructor store dst src other) := by
  unfold KernelKey.moveConstructor
  split
  · exact keeps.transfer source dst
  · exact keeps.putNone dst other.fields

/-- The destination of an assignment after it released its array. -/
theorem Keeps.released (keeps : Keeps store)
    (target : store.object dst = some this) (fields : KernelFields) :
    Keeps (store.put dst ⟨fields, none, 0⟩
      (store.arrays.free this.kOpsArr)) := by
  have owns := keeps.owns.free dst
  rw [pointer_of_object target] at owns
  refine Keeps.put owns (wellFormed_none _ _) ?_
  intro obj found different here
  exact (keeps.formed obj found here).congr
    (keeps.read_free target here different)

theorem Keeps.copyAssignment (keeps : Keeps store)
    (target : store.object dst = some this)
    (source : store.object src = some other) (apart : dst ≠ src)
    (length : 0 < this.kOpsArrSize → 0 < other.kOpsArrSize) :
    Keeps (copyAssignment store dst this other) := by
  have formed := keeps.formed src other source
  have same := keeps.read_free target source apart.symm
  unfold KernelKey.copyAssignment
  dsimp only
  rw [formed.hasOps_eq]
  by_cases positive : 0 < other.kOpsArrSize
  · have size := (formed.array positive).2
    rw [if_pos (decide_eq_true positive), copiedOps_congr same, ← size]
    have released := keeps.released target other.fields
    have some_ops : 0 < (copiedOps store.arrays other).length := by omega
    have fresh := released.putFresh dst other.fields some_ops
    have twice : ∀ info arrays, (store.put dst ⟨other.fields, none, 0⟩
        (store.arrays.free this.kOpsArr)).put dst info arrays =
          store.put dst info arrays := by
      intro info arrays
      simp [Store.put]
    rw [twice] at fresh
    exact fresh
  · rw [if_neg (by simpa using positive)]
    have empty : this.kOpsArrSize = 0 := by omega
    rw [empty]
    exact keeps.released target other.fields

theorem Keeps.moveAssignment (keeps : Keeps store)
    (target : store.object dst = some this)
    (source : store.object src = some other) (apart : dst ≠ src)
    (length : 0 < this.kOpsArrSize → 0 < other.kOpsArrSize) :
    Keeps (moveAssignment store dst src this other) := by
  have formed := keeps.formed src other source
  have released := keeps.released target other.fields
  unfold KernelKey.moveAssignment
  dsimp only
  rw [formed.hasOps_eq]
  by_cases positive : 0 < other.kOpsArrSize
  · rw [if_pos (decide_eq_true positive)]
    have still : (store.put dst ⟨other.fields, none, 0⟩
        (store.arrays.free this.kOpsArr)).object src = some other := by
      simpa [Store.put, apart.symm] using source
    have moved := released.transfer still dst
    have twice : ∀ emptied arrays, ((store.put dst ⟨other.fields, none, 0⟩
        (store.arrays.free this.kOpsArr)).put src emptied arrays).put dst
          other arrays =
        (store.put src emptied arrays).put dst other arrays := by
      intro emptied arrays
      simp only [Store.put, Store.mk.injEq, and_true]
      rw [Function.update_comm apart.symm, Function.update_idem,
        Function.update_comm apart]
    rw [twice] at moved
    exact moved
  · rw [if_neg (by simpa using positive)]
    have empty : this.kOpsArrSize = 0 := by omega
    rw [empty]
    exact released

theorem Keeps.destructor (keeps : Keeps store)
    (here : store.object obj = some this) :
    Keeps (destructor store obj this) := by
  have owns := keeps.owns.free obj
  rw [pointer_of_object here] at owns
  have pointer : (KernelKey.destructor store obj this).pointer =
      Function.update store.pointer obj none := by
    funext found
    by_cases same : found = obj
    · subst found
      simp [Store.pointer, KernelKey.destructor]
    · simp [Store.pointer, KernelKey.destructor, same]
  refine ⟨?_, ?_⟩
  · rw [pointer]
    exact owns
  · intro found info live
    by_cases same : found = obj
    · subst found
      simp [KernelKey.destructor] at live
    · have before : store.object found = some info := by
        simpa [KernelKey.destructor, same] using live
      exact (keeps.formed found info before).congr
        (keeps.read_free here before same)

end Steps

/-! ## Equality of keys -/

theorem WellFormed.copied_length {arrays : Arrays} {info : KernelInfo}
    (formed : WellFormed arrays info) :
    (copiedOps arrays info).length = info.kOpsArrSize := by
  by_cases positive : 0 < info.kOpsArrSize
  · exact (formed.array positive).2
  · have zero := (formed.empty positive).2
    unfold copiedOps
    rw [zero, List.take_zero, List.length_nil]

/-- The comparison reads the elements of the two arrays. -/
theorem WellFormed.element_eq {arrays : Arrays} {info : KernelInfo}
    (formed : WellFormed arrays info) (positive : 0 < info.kOpsArrSize)
    (index : Nat) :
    element arrays info.kOpsArr index = (copiedOps arrays info)[index]? := by
  unfold element
  rw [(formed.array positive).1, Option.bind_some]

/-- Two lists of one length agree as soon as the loop finds no difference. -/
theorem all_getElem?_iff {left right : List KernelOpsMetaData} {size : Nat}
    (leftLength : left.length = size) (rightLength : right.length = size) :
    ((List.range size).all fun i => left[i]? == right[i]?) = true ↔
      left = right := by
  rw [List.all_eq_true]
  constructor
  · intro agree
    refine List.ext_getElem? fun index => ?_
    by_cases inside : index < size
    · exact beq_iff_eq.mp (agree index (List.mem_range.mpr inside))
    · rw [List.getElem?_eq_none (by omega), List.getElem?_eq_none (by omega)]
  · rintro rfl index -
    exact beq_self_eq_true _

/-- On well formed objects `operator==` compares fields and operations. -/
theorem operatorEq_iff {arrays : Arrays} {lhs rhs : KernelInfo}
    (left : WellFormed arrays lhs) (right : WellFormed arrays rhs) :
    operatorEq arrays lhs rhs = true ↔ value arrays lhs = value arrays rhs := by
  have leftLength := left.copied_length
  have rightLength := right.copied_length
  unfold operatorEq value
  simp only [Bool.and_eq_true, beq_iff_eq, Prod.mk.injEq, and_assoc]
  refine and_congr_right fun _ => ?_
  constructor
  · rintro ⟨sizes, arraysEqual⟩
    by_cases positive : 0 < lhs.kOpsArrSize
    · have leftSet := Option.isSome_iff_ne_none.mpr
        (left.pointer_iff.mpr positive)
      have rightSet := Option.isSome_iff_ne_none.mpr
        (right.pointer_iff.mpr (sizes ▸ positive))
      rw [if_pos ⟨leftSet, rightSet⟩, if_pos sizes] at arraysEqual
      simp only [left.element_eq positive,
        right.element_eq (sizes ▸ positive)] at arraysEqual
      exact (all_getElem?_iff leftLength
        (rightLength.trans sizes.symm)).mp arraysEqual
    · rw [List.length_eq_zero_iff.mp (by omega : (copiedOps arrays lhs).length
        = 0), List.length_eq_zero_iff.mp (by omega :
        (copiedOps arrays rhs).length = 0)]
  · intro same
    have sizes : lhs.kOpsArrSize = rhs.kOpsArrSize := by
      rw [← leftLength, ← rightLength, same]
    refine ⟨sizes, ?_⟩
    by_cases set : lhs.kOpsArr.isSome = true ∧ rhs.kOpsArr.isSome = true
    · have positive : 0 < lhs.kOpsArrSize :=
        left.pointer_iff.mp (Option.isSome_iff_ne_none.mp set.1)
      rw [if_pos set, if_pos sizes]
      simp only [left.element_eq positive,
        right.element_eq (sizes ▸ positive)]
      exact (all_getElem?_iff leftLength
        (rightLength.trans sizes.symm)).mpr same
    · rw [if_neg set]

/-! ## What a key receives -/

theorem copiedOps_none (arrays : Arrays) (fields : KernelFields) :
    copiedOps arrays ⟨fields, none, 0⟩ = [] :=
  List.take_zero

theorem WellFormed.copied_empty {arrays : Arrays} {info : KernelInfo}
    (formed : WellFormed arrays info) (none : ¬ 0 < info.kOpsArrSize) :
    copiedOps arrays info = [] :=
  List.length_eq_zero_iff.mp (by have := formed.copied_length; omega)

/-- An object of a store that means what another one meant. -/
def Receives (store : Store Obj) (dst : Obj)
    (meaning : KernelFields × List KernelOpsMetaData) : Prop :=
  ∃ info, store.object dst = some info ∧ value store.arrays info = meaning

theorem receives_put {store : Store Obj} {dst : Obj} {info : KernelInfo}
    {arrays : Arrays} {meaning : KernelFields × List KernelOpsMetaData}
    (same : value arrays info = meaning) :
    Receives (store.put dst info arrays) dst meaning :=
  ⟨info, Function.update_self .., same⟩

/-- An object without operations means as much as a source without any. -/
theorem receives_empty {arrays : Arrays} {other : KernelInfo}
    (formed : WellFormed arrays other) (none : ¬ 0 < other.kOpsArrSize)
    (store : Store Obj) (dst : Obj) (after : Arrays) :
    Receives (store.put dst ⟨other.fields, .none, 0⟩ after) dst
      (value arrays other) := by
  refine receives_put ?_
  unfold value
  rw [copiedOps_none, formed.copied_empty none]

theorem receives_fresh {arrays : Arrays} {other : KernelInfo}
    (formed : WellFormed arrays other) (store : Store Obj) (dst : Obj)
    (after : Arrays) :
    Receives (store.put dst
      ⟨other.fields, some after.next, other.kOpsArrSize⟩
      (after.alloc (copiedOps arrays other))) dst (value arrays other) := by
  refine receives_put ?_
  unfold value
  rw [← formed.copied_length, copiedOps_fresh]

section Received

variable {store : Store Obj} {dst src : Obj} {this other : KernelInfo}

theorem copyConstructor_receives (formed : WellFormed store.arrays other)
    (dst : Obj) :
    Receives (copyConstructor store dst other) dst
      (value store.arrays other) := by
  unfold copyConstructor
  rw [formed.hasOps_eq]
  by_cases positive : 0 < other.kOpsArrSize
  · rw [if_pos (decide_eq_true positive)]
    exact receives_fresh formed store dst store.arrays
  · rw [if_neg (by simpa using positive)]
    exact receives_empty formed positive store dst store.arrays

theorem moveConstructor_receives (formed : WellFormed store.arrays other)
    (dst src : Obj) :
    Receives (moveConstructor store dst src other) dst
      (value store.arrays other) := by
  unfold moveConstructor
  rw [formed.hasOps_eq]
  by_cases positive : 0 < other.kOpsArrSize
  · rw [if_pos (decide_eq_true positive)]
    exact receives_put rfl
  · rw [if_neg (by simpa using positive)]
    exact receives_empty formed positive store dst store.arrays

theorem copyAssignment_receives (keeps : Keeps store)
    (target : store.object dst = some this)
    (source : store.object src = some other) (apart : dst ≠ src)
    (length : 0 < this.kOpsArrSize → 0 < other.kOpsArrSize) :
    Receives (copyAssignment store dst this other) dst
      (value store.arrays other) := by
  have formed := keeps.formed src other source
  have same := keeps.read_free target source apart.symm
  unfold copyAssignment
  dsimp only
  rw [formed.hasOps_eq]
  by_cases positive : 0 < other.kOpsArrSize
  · rw [if_pos (decide_eq_true positive), copiedOps_congr same]
    exact receives_fresh formed store dst _
  · have empty : this.kOpsArrSize = 0 := by omega
    rw [if_neg (by simpa using positive), empty]
    exact receives_empty formed positive store dst _

theorem moveAssignment_receives (keeps : Keeps store)
    (target : store.object dst = some this)
    (source : store.object src = some other) (apart : dst ≠ src)
    (length : 0 < this.kOpsArrSize → 0 < other.kOpsArrSize) :
    Receives (moveAssignment store dst src this other) dst
      (value store.arrays other) := by
  have formed := keeps.formed src other source
  have same := keeps.read_free target source apart.symm
  unfold moveAssignment
  dsimp only
  rw [formed.hasOps_eq]
  by_cases positive : 0 < other.kOpsArrSize
  · rw [if_pos (decide_eq_true positive)]
    refine receives_put ?_
    unfold value
    rw [copiedOps_congr same]
  · have empty : this.kOpsArrSize = 0 := by omega
    rw [if_neg (by simpa using positive), empty]
    exact receives_empty formed positive store dst _

end Received

/-! ## Runs that keep the lengths -/

/-- A key is built from given operations by no full constructor, and takes the
place of another one only when the length is kept. -/
def Allowed (store : Store Obj) : Act Obj → Prop
  | .full _ _ array size => array = none ∨ size = 0
  | .copyAssign dst src | .moveAssign dst src => KeepsLength store dst src
  | _ => True

/-- The source and the destination of an action that passes a key on. -/
def Act.passes : Act Obj → Option (Obj × Obj)
  | .copy dst src | .move dst src | .pointerMove dst src
  | .copyAssign dst src | .moveAssign dst src => some (dst, src)
  | _ => none

/-- A construction starts a lifetime; an assignment needs two live objects. -/
def Act.Ready (store : Store Obj) : Act Obj → Prop
  | .full dst .. | .default dst _ | .checkPostOps dst .. =>
      store.object dst = none
  | .copy dst src | .move dst src | .pointerMove dst src =>
      store.object dst = none ∧ (store.object src).isSome
  | .copyAssign dst src | .moveAssign dst src =>
      (store.object dst).isSome ∧ (store.object src).isSome
  | .destroy obj => (store.object obj).isSome

omit [DecidableEq Obj] in
theorem keeps_initial : Keeps (initial : Store Obj) :=
  ⟨Owns.empty, fun _ _ here => absurd here (Option.some_ne_none _).symm⟩

omit [DecidableEq Obj] in
theorem Keeps.constructAt {store built : Store Obj} (keeps : Keeps store)
    (after : Keeps built) (dst : Obj) :
    Keeps (constructAt store dst built) := by
  unfold KernelKey.constructAt
  split
  · exact keeps
  · exact after

theorem Keeps.checkPostOpsAndCreateKernelInfo {store : Store Obj}
    (keeps : Keeps store) (dst : Obj) (fields : KernelFields)
    (postOps : List KernelOpsMetaData) :
    Keeps (checkPostOpsAndCreateKernelInfo store dst fields postOps) := by
  unfold KernelKey.checkPostOpsAndCreateKernelInfo
  split
  · exact keeps.fullConstructor dst fields none 0 (Or.inl rfl)
  · exact keeps.putFresh dst fields (by omega)

/-- Every allowed action keeps the arrays and the lengths together. -/
theorem Keeps.perform {store : Store Obj} (keeps : Keeps store)
    (act : Act Obj) (allowed : Allowed store act) :
    Keeps (perform act store) := by
  cases act with
  | full dst fields array size =>
      exact keeps.constructAt
        (keeps.fullConstructor dst fields array size allowed) dst
  | default dst invokeRD =>
      exact keeps.constructAt (keeps.putNone dst _) dst
  | checkPostOps dst fields postOps =>
      exact keeps.constructAt
        (keeps.checkPostOpsAndCreateKernelInfo dst fields postOps) dst
  | copy dst src =>
      dsimp only [KernelKey.perform]
      cases source : store.object src with
      | none => exact keeps
      | some other =>
          exact keeps.constructAt (keeps.copyConstructor source dst) dst
  | move dst src | pointerMove dst src =>
      dsimp only [KernelKey.perform]
      cases source : store.object src with
      | none => exact keeps
      | some other =>
          exact keeps.constructAt (keeps.moveConstructor source dst) dst
  | copyAssign dst src =>
      dsimp only [KernelKey.perform]
      cases target : store.object dst with
      | none => exact keeps
      | some this =>
          cases source : store.object src with
          | none => exact keeps
          | some other =>
              dsimp only
              by_cases same : dst = src
              · rw [if_pos same]
                exact keeps
              · rw [if_neg same]
                exact keeps.copyAssignment target source same
                  (allowed.resolve_left same this other target source)
  | moveAssign dst src =>
      dsimp only [KernelKey.perform]
      cases target : store.object dst with
      | none => exact keeps
      | some this =>
          cases source : store.object src with
          | none => exact keeps
          | some other =>
              dsimp only
              by_cases same : dst = src
              · rw [if_pos same]
                exact keeps
              · rw [if_neg same]
                exact keeps.moveAssignment target source same
                  (allowed.resolve_left same this other target source)
  | destroy obj =>
      dsimp only [KernelKey.perform]
      cases here : store.object obj with
      | none => exact keeps
      | some this => exact keeps.destructor here

/-- A construction from another key, or an assignment, passes on what the
source meant. -/
theorem Keeps.receives {store : Store Obj} (keeps : Keeps store)
    {act : Act Obj} (ready : act.Ready store) (allowed : Allowed store act)
    {dst src : Obj} {other : KernelInfo}
    (passes : act.passes = some (dst, src))
    (source : store.object src = some other) :
    Receives (KernelKey.perform act store) dst
      (value store.arrays other) := by
  have formed := keeps.formed src other source
  cases act with
  | full | default | checkPostOps | destroy => cases passes
  | copy =>
      cases passes
      have unborn : ¬ (store.object dst).isSome = true := by
        rw [ready.1]
        exact Bool.false_ne_true
      dsimp only [KernelKey.perform, KernelKey.constructAt]
      rw [source]
      dsimp only
      rw [if_neg unborn]
      exact copyConstructor_receives formed dst
  | move | pointerMove =>
      cases passes
      have unborn : ¬ (store.object dst).isSome = true := by
        rw [ready.1]
        exact Bool.false_ne_true
      dsimp only [KernelKey.perform, KernelKey.constructAt]
      rw [source]
      dsimp only
      rw [if_neg unborn]
      exact moveConstructor_receives formed dst src
  | copyAssign =>
      cases passes
      rcases Option.isSome_iff_exists.mp ready.1 with ⟨this, target⟩
      dsimp only [KernelKey.perform]
      rw [target, source]
      dsimp only
      by_cases same : dst = src
      · rw [if_pos same]
        exact ⟨other, same ▸ source, rfl⟩
      · rw [if_neg same]
        exact copyAssignment_receives keeps target source same
          (allowed.resolve_left same this other target source)
  | moveAssign =>
      cases passes
      rcases Option.isSome_iff_exists.mp ready.1 with ⟨this, target⟩
      dsimp only [KernelKey.perform]
      rw [target, source]
      dsimp only
      by_cases same : dst = src
      · rw [if_pos same]
        exact ⟨other, same ▸ source, rfl⟩
      · rw [if_neg same]
        exact moveAssignment_receives keeps target source same
          (allowed.resolve_left same this other target source)

/-- Some live key has a pointer and no length, or a length and no pointer. -/
def Torn (store : Store Obj) : Prop :=
  ∃ obj info, store.object obj = some info ∧
    ¬ (info.kOpsArr ≠ none ↔ 0 < info.kOpsArrSize)

theorem torn_put {store : Store Obj} {dst : Obj} {info : KernelInfo}
    {arrays : Arrays}
    (apart : ¬ (info.kOpsArr ≠ none ↔ 0 < info.kOpsArrSize)) :
    Torn (store.put dst info arrays) :=
  ⟨dst, info, Function.update_self .., apart⟩

/-- The full constructor keeps the array and forgets its length. -/
theorem fullConstructor_torn (store : Store Obj) (dst : Obj)
    (fields : KernelFields) (ops : List KernelOpsMetaData) {size : Nat}
    (positive : size ≠ 0) :
    Torn (fullConstructor store dst fields (some ops) size) := by
  have set : hasOps (some store.arrays.next) size = true := by
    simpa [hasOps, Nat.pos_iff_ne_zero] using positive
  unfold fullConstructor
  dsimp only
  rw [set, if_pos rfl, if_pos rfl]
  exact torn_put (by simp [hasOps])

/-- An assignment from a key without operations forgets the array and keeps
its length. -/
theorem torn_of_lost_length (store : Store Obj) (dst : Obj)
    (fields : KernelFields) {size : Nat} (positive : 0 < size)
    (arrays : Arrays) :
    Torn (store.put dst ⟨fields, none, size⟩ arrays) :=
  torn_put (by simpa using Nat.ne_of_gt positive)

/-- Every other action tears a key. -/
theorem Keeps.torn {store : Store Obj} (keeps : Keeps store)
    {act : Act Obj} (ready : act.Ready store)
    (refused : ¬ Allowed store act) :
    Torn (KernelKey.perform act store) := by
  have lost : ∀ dst src, ¬ KeepsLength store dst src →
      dst ≠ src ∧ ∃ this other, store.object dst = some this ∧
        store.object src = some other ∧ 0 < this.kOpsArrSize ∧
          hasOps other.kOpsArr other.kOpsArrSize = false := by
    intro dst src shorter
    unfold KeepsLength at shorter
    push Not at shorter
    rcases shorter with ⟨apart, this, other, target, source, some_ops, none⟩
    refine ⟨apart, this, other, target, source, some_ops, ?_⟩
    rw [(keeps.formed src other source).hasOps_eq]
    exact decide_eq_false (by omega)
  cases act with
  | default | checkPostOps | destroy | copy | move | pointerMove =>
      exact absurd trivial refused
  | full dst fields array size =>
      have given : array ≠ none ∧ size ≠ 0 := not_or.mp refused
      have unborn : ¬ (store.object dst).isSome = true := by
        rw [show store.object dst = none from ready]
        exact Bool.false_ne_true
      rcases Option.ne_none_iff_exists'.mp given.1 with ⟨ops, rfl⟩
      dsimp only [KernelKey.perform, KernelKey.constructAt]
      rw [if_neg unborn]
      exact fullConstructor_torn store dst fields ops given.2
  | copyAssign dst src =>
      rcases lost dst src refused with
        ⟨apart, this, other, target, source, some_ops, none⟩
      dsimp only [KernelKey.perform]
      rw [target, source]
      dsimp only [KernelKey.copyAssignment]
      rw [if_neg apart, none]
      exact torn_of_lost_length store dst other.fields some_ops _
  | moveAssign dst src =>
      rcases lost dst src refused with
        ⟨apart, this, other, target, source, some_ops, none⟩
      dsimp only [KernelKey.perform]
      rw [target, source]
      dsimp only [KernelKey.moveAssignment]
      rw [if_neg apart, none]
      exact torn_of_lost_length store dst other.fields some_ops _

/-- `operator==` on the live objects. -/
structure ComparesByMeaning (store : Store Obj) : Prop where
  refl : ∀ obj info, store.object obj = some info →
    operatorEq store.arrays info info = true
  symm : ∀ one other lhs rhs, store.object one = some lhs →
    store.object other = some rhs → operatorEq store.arrays lhs rhs = true →
      operatorEq store.arrays rhs lhs = true
  trans : ∀ one two three lhs middle rhs, store.object one = some lhs →
    store.object two = some middle → store.object three = some rhs →
      operatorEq store.arrays lhs middle = true →
        operatorEq store.arrays middle rhs = true →
          operatorEq store.arrays lhs rhs = true
  distinguishes : ∀ one other lhs rhs, store.object one = some lhs →
    store.object other = some rhs →
      copiedOps store.arrays lhs ≠ copiedOps store.arrays rhs →
        operatorEq store.arrays lhs rhs = false
  meaning : ∀ one other lhs rhs, store.object one = some lhs →
    store.object other = some rhs →
      (operatorEq store.arrays lhs rhs = true ↔
        value store.arrays lhs = value store.arrays rhs)
  hash : ∀ one other lhs rhs, store.object one = some lhs →
    store.object other = some rhs → operatorEq store.arrays lhs rhs = true →
      gemmHashKeyGetter lhs = gemmHashKeyGetter rhs

omit [DecidableEq Obj] in
theorem Keeps.comparesByMeaning {store : Store Obj} (keeps : Keeps store) :
    ComparesByMeaning store := by
  have meaning : ∀ one other lhs rhs, store.object one = some lhs →
      store.object other = some rhs →
        (operatorEq store.arrays lhs rhs = true ↔
          value store.arrays lhs = value store.arrays rhs) :=
    fun one other lhs rhs left right =>
      operatorEq_iff (keeps.formed one lhs left) (keeps.formed other rhs right)
  refine ⟨?_, ?_, ?_, ?_, meaning, ?_⟩
  · intro obj info here
    exact (meaning obj obj info info here here).mpr rfl
  · intro one other lhs rhs left right equal
    exact (meaning other one rhs lhs right left).mpr
      ((meaning one other lhs rhs left right).mp equal).symm
  · intro one two three lhs middle rhs left between right first second
    exact (meaning one three lhs rhs left right).mpr
      (((meaning one two lhs middle left between).mp first).trans
        ((meaning two three middle rhs between right).mp second))
  · intro one other lhs rhs left right differ
    rw [Bool.eq_false_iff]
    intro equal
    exact differ (congrArg Prod.snd
      ((meaning one other lhs rhs left right).mp equal))
  · intro one other lhs rhs left right equal
    have fields : lhs.fields = rhs.fields :=
      congrArg Prod.fst ((meaning one other lhs rhs left right).mp equal)
    unfold gemmHashKeyGetter
    rw [fields]

/-- In every run of allowed actions the pointers and the lengths agree, keys
are passed on whole and compared by what they mean; an action that is not
allowed tears a key. -/
theorem keys_keep_their_meaning {store : Store Obj}
    (reachable : (Machine.ofGuardedActions (initial : Store Obj) perform
      Allowed).Reachable store) :
    (∀ obj info, store.object obj = some info →
      (info.kOpsArr ≠ none ↔ 0 < info.kOpsArrSize)) ∧
    (∀ act dst src other, Act.Ready store act → Allowed store act →
      act.passes = some (dst, src) → store.object src = some other →
        Receives (perform act store) dst (value store.arrays other)) ∧
    ComparesByMeaning store ∧
    (∀ act, Act.Ready store act → ¬ Allowed store act →
      Torn (perform act store)) := by
  have keeps : Keeps store := by
    refine reachable.invariant Keeps ?_ ?_
    · rintro _ rfl
      exact keeps_initial
    · rintro current next held ⟨act, allowed, rfl⟩
      exact held.perform act allowed
  refine ⟨?_, ?_, keeps.comparesByMeaning, ?_⟩
  · intro obj info here
    exact (keeps.formed obj info here).pointer_iff
  · intro act dst src other ready allowed passes source
    exact keeps.receives ready allowed passes source
  · intro act ready refused
    exact keeps.torn ready refused

/-- The fields of a plain kernel. -/
def plainFields : KernelFields :=
  ⟨6, 64, 0, 1, 512, 0, .one, .one, .unpacked, .pack, false, false, false,
    .none, 0, false, false⟩

/-- A description of a post-op without parameters. -/
def plainOp (type : KernelOps) : KernelOpsMetaData :=
  ⟨type, .invalid, .invalid, .invalid, .invalid, .invalid, .rowMajor,
    .invalid⟩

/-- A key with two operations, its copy and a key it is moved to. -/
def passedKeys : Store Nat :=
  Machine.runActions perform initial
    [.checkPostOps 0 plainFields [plainOp .bias, plainOp .relu], .copy 1 0,
      .default 2 false, .copyAssign 2 1, .pointerMove 3 0]

theorem keys_keep_their_meaning_passed :
    (Machine.ofGuardedActions (initial : Store Nat) perform
      Allowed).Reachable passedKeys ∧
    passedKeys.object 3 = some ⟨plainFields, some 0, 2⟩ ∧
    Receives (perform (.moveAssign 0 3) passedKeys) 0
      (plainFields, [plainOp .bias, plainOp .relu]) ∧
    Torn (perform (.copyAssign 3 0) passedKeys) := by
  have reachable : (Machine.ofGuardedActions (initial : Store Nat) perform
      Allowed).Reachable passedKeys := by
    have start : (Machine.ofGuardedActions (initial : Store Nat) perform
        Allowed).Reachable initial :=
      Machine.Reachable.init rfl
    refine (((((start.step ⟨.checkPostOps 0 plainFields
      [plainOp .bias, plainOp .relu], trivial, rfl⟩).step
        ⟨.copy 1 0, trivial, rfl⟩).step
        ⟨.default 2 false, trivial, rfl⟩).step
        ⟨.copyAssign 2 1, ?_, rfl⟩).step ⟨.pointerMove 3 0, trivial, rfl⟩)
    refine Or.inr ?_
    rintro this other target source some_ops
    cases source
    decide
  have settled := keys_keep_their_meaning reachable
  have source : passedKeys.object 3 = some ⟨plainFields, some 0, 2⟩ := rfl
  refine ⟨reachable, source, ?_, ?_⟩
  · refine settled.2.1 (.moveAssign 0 3) 0 3 _ ⟨rfl, rfl⟩ ?_ rfl source
    refine Or.inr ?_
    rintro this other target found some_ops
    cases found
    decide
  · refine settled.2.2.2 (.copyAssign 3 0) ⟨rfl, rfl⟩ ?_
    rintro (same | kept)
    · cases same
    · exact absurd (kept _ _ rfl rfl (by decide)) (by decide)

/-- Two keys with different operations whose lengths were forgotten compare as
equal, and a key that is assigned an empty one differs from it. -/
theorem keys_lose_their_meaning :
    (let built := Machine.runActions perform (initial : Store Nat)
      [.full 0 plainFields (some [plainOp .bias]) 1,
        .full 1 plainFields (some [plainOp .relu]) 1]
    ∃ lhs rhs, built.object 0 = some lhs ∧ built.object 1 = some rhs ∧
      built.arrays.read lhs.kOpsArr = some [plainOp .bias] ∧
      built.arrays.read rhs.kOpsArr = some [plainOp .relu] ∧
      lhs.kOpsArrSize = 0 ∧ operatorEq built.arrays lhs rhs = true) ∧
    (let assigned := Machine.runActions perform (initial : Store Nat)
      [.checkPostOps 0 plainFields [plainOp .bias], .default 1 false,
        .copyAssign 0 1]
    ∃ this other, assigned.object 0 = some this ∧
      assigned.object 1 = some other ∧ this.kOpsArr = none ∧
      this.kOpsArrSize = 1 ∧
      operatorEq assigned.arrays this other = false) :=
  ⟨⟨_, _, rfl, rfl, rfl, rfl, rfl, by decide⟩,
    ⟨_, _, rfl, rfl, rfl, rfl, by decide⟩⟩

end AoclDlp.KernelFrame.KernelKey
