import AoclDlp.Foundations.LinkedArray
import AoclDlp.KernelFrame.KernelKey
import AoclDlp.PostOps.Translate

/-!
# The post-operations of a kernel key

`checkPostOpsAndCreateKernelInfo` walks the list of nodes twice, until there
is no node or a node is disabled: once to count, once to fill the array of
operations that the kernel key holds.

A translation is faithful when the walks see every element of the caller's
sequence.  An element-wise operation with an algorithm outside the enumeration
is translated into a disabled node, and the walks end in front of it.
-/

namespace AoclDlp.PostOps.KernelOps

open AoclDlp.Foundations.LinkedArray
open AoclDlp.KernelFrame.KernelKey
open AoclDlp.PostOps.Translate
open AoclDlp.Quant.GroupSize (DlpType)

/-! ## One operation -/

/-- `getStorageDtFromAoclStorageType`. -/
def getStorageDtFromAoclStorageType : DlpType → DataType
  | .invalid => .invalid
  | .s4 => .s4
  | .u4 => .u4
  | .f4 => .f4
  | .s8 => .s8
  | .u8 => .u8
  | .s16 => .s16
  | .u16 => .u16
  | .f16 => .f16
  | .bf16 => .bf16
  | .s32 => .s32
  | .u32 => .u32
  | .f32 => .f32

/-- The default constructor of `kernelOpsMetaData`. -/
def defaultMetaData : KernelOpsMetaData where
  type := .maxKernelOps
  scaleFactorDt := .maxDatatypes
  sfDim := .invalid
  zeroPointDt := .maxDatatypes
  zpDim := .invalid
  paramStorageDt := .maxDatatypes
  cMatFormat := .rowMajor
  biasDim := .invalid

/-- The storage format behind `op_args2`. -/
def storageFormatOf : OpArg → StorageFormat
  | .order format => if format.toLower = 'c' then .colMajor else .rowMajor
  | _ => .rowMajor

/-- A length of one is a scalar. -/
def dimOfLen (wide : ParamDim) (len : Int) : ParamDim :=
  if len = 1 then .scalar else wide

/-- The scale factor of an operation with a label of its own. -/
def withScale (node : DlpGemmPostOp) (sfDim : ParamDim)
    (metaData : KernelOpsMetaData) : KernelOpsMetaData :=
  if node.scaleFactor = .null then metaData
  else
    { metaData with
      scaleFactorDt := getStorageDtFromAoclStorageType node.sfStorType
      sfDim := sfDim }

/-- The granularity of a downscale; other labels leave the field. -/
def downscaleDim (current : ParamDim) :
    Quant.GroupSize.ParamDim → ParamDim
  | .perTensor => .scalar
  | .perToken => .perM
  | .perChannel => .perN
  | _ => current

/-- The zero point whose length is behind `op_args3`. -/
def withZeroPoint (node : DlpGemmPostOp) (wide : ParamDim)
    (metaData : KernelOpsMetaData) : KernelOpsMetaData :=
  match node.opArgs3 with
  | .length zpLen =>
      { metaData with
        zeroPointDt := getStorageDtFromAoclStorageType node.zpStorType
        zpDim := if 0 < zpLen then dimOfLen wide zpLen else metaData.zpDim }
  | _ => metaData

/-- `setKernelOps`. -/
def setKernelOps (node : DlpGemmPostOp) (metaData : KernelOpsMetaData) :
    KernelOpsMetaData :=
  let stored := getStorageDtFromAoclStorageType node.storType
  let inferred := dimOfLen .perN node.scaleFactorLen
  match node.opCode with
  | .bias =>
      let metaData := { metaData with
        type := .bias
        paramStorageDt := stored
        cMatFormat := storageFormatOf node.opArgs2
        biasDim := match node.opArgs3 with
          | .length biasLen => dimOfLen .perN biasLen
          | _ => metaData.biasDim }
      let metaData := withScale node inferred metaData
      match node.biasZp with
      | none => metaData
      | some _ =>
          { metaData with
            zeroPointDt := getStorageDtFromAoclStorageType node.zpStorType
            zpDim := dimOfLen .perN node.biasZpLen }
  | .relu => { metaData with type := .relu }
  | .reluScale =>
      { metaData with type := .reluScale, paramStorageDt := stored }
  | .geluTanh => { metaData with type := .geluTanh }
  | .geluErf => { metaData with type := .geluErf }
  | .clip => { metaData with type := .clip, paramStorageDt := stored }
  | .swish => { metaData with type := .swish, paramStorageDt := stored }
  | .tanh => { metaData with type := .tanh }
  | .sigmoid => { metaData with type := .sigmoid }
  | .mish => { metaData with type := .mish }
  | .gatedSwiglu =>
      { metaData with
        type := .gatedSwiglu
        cMatFormat := storageFormatOf node.opArgs2 }
  | .gatedSwigluAndMul =>
      { metaData with
        type := .gatedSwigluAndMul
        cMatFormat := storageFormatOf node.opArgs2 }
  | .downscale =>
      let metaData := { metaData with
        type := .downscale
        cMatFormat := storageFormatOf node.opArgs2 }
      withZeroPoint node .perN
        (withScale node (downscaleDim metaData.sfDim node.scaleFactorDim)
          metaData)
  | .matrixAdd =>
      withScale node inferred
        { metaData with
          type := .matAdd
          paramStorageDt := stored
          cMatFormat := storageFormatOf node.opArgs2 }
  | .matrixMul =>
      withScale node inferred
        { metaData with
          type := .matMul
          paramStorageDt := stored
          cMatFormat := storageFormatOf node.opArgs2 }
  | .adquantize =>
      let metaData := { metaData with
        type := .aDQuantize
        cMatFormat := .rowMajor
        scaleFactorDt := getStorageDtFromAoclStorageType node.sfStorType
        sfDim := dimOfLen .perM node.scaleFactorLen
        zeroPointDt := getStorageDtFromAoclStorageType node.zpStorType }
      withZeroPoint node .perM metaData
  | .sum | .disable => { metaData with type := .invalid }

/-! ## The two walks -/

/-- The node ends the walks. -/
def stops (list : PostOpList) (slot : Nat) : Bool :=
  decide ((list slot).opCode = .disable)

/-- The successor of a node. -/
def next (list : PostOpList) (slot : Nat) : Option Nat :=
  (list slot).next

/-- The counting loop. -/
def countPostOps (list : PostOpList) : Nat → Option Nat → Nat → Option Nat
  | 0, _, _ => none
  | _ + 1, none, numPostOps => some numPostOps
  | fuel + 1, some slot, numPostOps =>
      if stops list slot then some numPostOps
      else countPostOps list fuel (next list slot) (numPostOps + 1)

/-- The filling loop. -/
def fillKernelOps (list : PostOpList) :
    Nat → Option Nat → Nat → List KernelOpsMetaData →
      Option (List KernelOpsMetaData)
  | 0, _, _, _ => none
  | _ + 1, none, _, kOpsArr => some kOpsArr
  | fuel + 1, some slot, ii, kOpsArr =>
      if stops list slot then some kOpsArr
      else
        fillKernelOps list fuel (next list slot) (ii + 1)
          (kOpsArr.modify ii (setKernelOps (list slot)))

/-- The operations of a key: their number and, when there are any, their
array. -/
structure KeyOps where
  kOpsArrSize : Nat
  kOpsArr : Option (List KernelOpsMetaData)
  deriving DecidableEq, Repr

/-- The loops of `checkPostOpsAndCreateKernelInfo`. -/
def checkPostOpsAndCreateKernelInfo (fuel : Nat) (list : PostOpList) :
    Option KeyOps := do
  let numPostOps ← countPostOps list fuel (some 0) 0
  if numPostOps = 0 then some ⟨0, none⟩
  else do
    let kOpsArr ← fillKernelOps list fuel (some 0) 0
      (List.replicate numPostOps defaultMetaData)
    some ⟨numPostOps, some kOpsArr⟩

/-- The counting loop counts the slots of the walk. -/
theorem countPostOps_eq (list : PostOpList) (fuel : Nat)
    (start : Option Nat) (counted : Nat) :
    countPostOps list fuel start counted =
      (walk (next list) (stops list) fuel start).map
        fun visited => counted + visited.length := by
  induction fuel generalizing start counted with
  | zero => rfl
  | succ fuel ih =>
      cases start with
      | none => rfl
      | some slot =>
          rw [countPostOps, walk]
          split_ifs
          · rfl
          · rw [ih, Option.map_map]
            congr 1
            funext visited
            simp [Nat.add_right_comm, Nat.add_assoc]

theorem modify_behind {Value : Type} (change : Value → Value)
    (front back : List Value) (value : Value) :
    (front ++ value :: back).modify front.length change =
      front ++ change value :: back := by
  induction front with
  | nil => rfl
  | cons first front ih => exact congrArg (first :: ·) ih

/-- The filling loop writes behind what it has written. -/
theorem fillKernelOps_eq (list : PostOpList) {fuel : Nat}
    {start : Option Nat} {visited : List Nat}
    (walked : walk (next list) (stops list) fuel start = some visited)
    (written : List KernelOpsMetaData) :
    fillKernelOps list fuel start written.length
        (written ++ List.replicate visited.length defaultMetaData) =
      some (written ++
        visited.map fun slot => setKernelOps (list slot) defaultMetaData) := by
  induction fuel generalizing start visited written with
  | zero => cases walked
  | succ fuel ih =>
      cases start with
      | none =>
          cases walked
          rfl
      | some slot =>
          rw [walk] at walked
          rw [fillKernelOps]
          split_ifs at walked ⊢ with stopped
          · cases walked
            rfl
          · rcases Option.map_eq_some_iff.mp walked with ⟨rest, later, rfl⟩
            have step := ih later
              (written ++ [setKernelOps (list slot) defaultMetaData])
            rw [List.length_append, List.length_singleton,
              List.append_assoc, List.append_assoc] at step
            rw [List.length_cons, List.replicate_succ, List.map_cons,
              modify_behind]
            exact step

/-- The key holds one operation for each node of the walk, in its order. -/
theorem keyOps_eq (list : PostOpList) {fuel : Nat} {visited : List Nat}
    (walked : walk (next list) (stops list) fuel (some 0) = some visited)
    (nonempty : visited ≠ []) :
    checkPostOpsAndCreateKernelInfo fuel list =
      some ⟨visited.length, some (visited.map fun slot =>
        setKernelOps (list slot) defaultMetaData)⟩ := by
  have filled := fillKernelOps_eq list walked []
  rw [List.length_nil, List.nil_append, List.nil_append] at filled
  have several : visited.length ≠ 0 :=
    fun zero => nonempty (List.length_eq_zero_iff.mp zero)
  unfold checkPostOpsAndCreateKernelInfo
  rw [countPostOps_eq, walked, Option.map_some, Nat.zero_add]
  change (if visited.length = 0 then _ else _) = _
  rw [if_neg several, filled]
  rfl

/-! ## Faithful translations -/

/-- With enough fuel the walk visits exactly the first `count` slots. -/
def Visits (list : PostOpList) (count : Nat) : Prop :=
  ∃ enough, ∀ fuel, enough ≤ fuel →
    walk (next list) (stops list) fuel (some 0) = some (List.range count)

/-- With enough fuel the key holds the operations of the first `count`
slots. -/
def Keyed (list : PostOpList) (count : Nat) : Prop :=
  ∃ enough, ∀ fuel, enough ≤ fuel →
    checkPostOpsAndCreateKernelInfo fuel list =
      some ⟨count, some ((List.range count).map fun slot =>
        setKernelOps (list slot) defaultMetaData)⟩

/--
The translation wrote one node for each element of the sequence, each with
the struct that its element stands for; the walks see these nodes in order,
and one more when a gated linear unit is appended.
-/
structure Faithful (metadata : PostOpMetadata) (metaArg : OpArg) (m n : Int)
    (before after : PostOpList) : Prop where
  bounded : metadata.seqLength ≤ aoclDlpMaxPostOps
  untouched : ∀ slot, metadata.seqLength.toNat ≤ slot →
    after slot = before slot
  carries : ∃ seqVector, metadata.seqVector = some seqVector ∧
    ∀ slot, slot < metadata.seqLength.toNat →
      Carries metadata metaArg m n (seqVector slot)
        (occurrence seqVector (seqVector slot) slot) (after slot)
  visits : Visits after metadata.seqLength.toNat
  keyed : Keyed after metadata.seqLength.toNat
  glu : ∀ unit, metadata.glu = some unit → ∀ extended,
    dlpGemmTranslateGluTermOp (some metadata) after metadata.seqLength.toNat
        0 metaArg m n = .ok extended →
      Visits extended (metadata.seqLength.toNat + 1) ∧
        Keyed extended (metadata.seqLength.toNat + 1) ∧
        (extended metadata.seqLength.toNat).gluD = unit.d

/-- Every element-wise operation that the sequence reaches has an algorithm
of the enumeration. -/
def KnownAlgorithms (metadata : PostOpMetadata) : Prop :=
  ∀ seqVector ops, metadata.seqVector = some seqVector →
    metadata.eltwise = some ops →
    ∀ slot, slot < metadata.seqLength.toNat → seqVector slot = .eltwise →
      ∀ value, (ops (occurrence seqVector .eltwise slot)).algo.algoType ≠
        .other value

theorem visits_of_block {list : PostOpList} {count : Nat}
    (block : Block (next list) (stops list) 0 (count + 1)) :
    Visits list (count + 1) := by
  refine ⟨count + 2, fun fuel enough => ?_⟩
  rw [List.range_eq_range']
  exact walk_mono (walk_block block) enough

theorem keyed_of_visits {list : PostOpList} {count : Nat}
    (visits : Visits list (count + 1)) : Keyed list (count + 1) := by
  rcases visits with ⟨enough, visits⟩
  refine ⟨enough, fun fuel more => ?_⟩
  have nonempty : List.range (count + 1) ≠ [] := by simp
  rw [keyOps_eq list (visits fuel more) nonempty, List.length_range]

theorem eltwiseCode_eq_disable_iff (algo : DlpEltAlgoType) :
    eltwiseCode algo = .disable ↔ ∃ value, algo = .other value := by
  cases algo <;> simp [eltwiseCode]

/-- A node is disabled only where an element-wise algorithm is unknown. -/
theorem carries_live {metadata : PostOpMetadata} {metaArg : OpArg}
    {m n : Int} {kind : DlpPostOpType} {index : Nat} {node : DlpGemmPostOp}
    (carries : Carries metadata metaArg m n kind index node)
    (known : kind = .eltwise → ∀ ops, metadata.eltwise = some ops →
      ∀ value, (ops index).algo.algoType ≠ .other value) :
    node.opCode ≠ .disable := by
  cases kind with
  | eltwise =>
      rcases carries with ⟨ops, given, carries⟩
      rw [carries.code, Ne, eltwiseCode_eq_disable_iff]
      rintro ⟨value, unknown⟩
      exact known rfl ops given value unknown
  | bias =>
      rcases carries with ⟨ops, given, carries⟩
      rw [carries.code]
      decide
  | scale =>
      rcases carries with ⟨ops, given, carries⟩
      rw [carries.code]
      decide
  | matrixAdd | matrixMul =>
      rcases carries with ⟨ops, given, carries⟩
      rw [carries.code]
      decide
  | other value => exact carries.elim

section Blocks

variable {metadata : PostOpMetadata} {seqVector : Nat → DlpPostOpType}
  {metaArg : OpArg} {m n : Int} {before after : PostOpList}

/-- Known algorithms leave no node disabled. -/
theorem live_of_known (given : metadata.seqVector = some seqVector)
    (done : Translated metadata seqVector metaArg m n 0
      metadata.seqLength.toNat before after)
    (known : KnownAlgorithms metadata) {slot : Nat}
    (inside : slot < metadata.seqLength.toNat) :
    (after slot).opCode ≠ .disable := by
  have carries := done.carries slot (Nat.zero_le slot) inside
  apply carries_live carries
  intro kind ops array value
  rw [kind]
  exact known seqVector ops given array slot inside kind value

/-- The links inside the sequence. -/
theorem linked_of_translated
    (done : Translated metadata seqVector metaArg m n 0
      metadata.seqLength.toNat before after) {slot : Nat}
    (inside : slot + 1 < metadata.seqLength.toNat) :
    (after slot).next = some (slot + 1) := by
  rw [done.next slot (Nat.zero_le slot) (by omega), if_pos (by omega)]

theorem block_of_known (given : metadata.seqVector = some seqVector)
    (done : Translated metadata seqVector metaArg m n 0
      metadata.seqLength.toNat before after)
    (known : KnownAlgorithms metadata) :
    Block (next after) (stops after) 0 metadata.seqLength.toNat where
  live := fun slot inside => by
    rw [Nat.zero_add]
    exact decide_eq_false (live_of_known given done known inside)
  linked := fun slot inside => by
    rw [Nat.zero_add]
    exact linked_of_translated done inside
  ended := fun slot last => by
    rw [Nat.zero_add]
    exact (done.next slot (Nat.zero_le slot) (by omega)).trans
      (if_neg (by omega))

/-- An appended unit extends the block by its node. -/
theorem block_of_appended (given : metadata.seqVector = some seqVector)
    (done : Translated metadata seqVector metaArg m n 0
      metadata.seqLength.toNat before after)
    (known : KnownAlgorithms metadata) {unit : DlpTermOpGlu}
    {extended : PostOpList}
    (appended : Appended unit metadata.seqLength.toNat after extended) :
    Block (next extended) (stops extended) 0
      (metadata.seqLength.toNat + 1) where
  live := fun slot inside => by
    rw [Nat.zero_add]
    apply decide_eq_false
    rcases Nat.lt_succ_iff_lt_or_eq.mp inside with before | rfl
    · rw [appended.kept slot before]
      exact live_of_known given done known before
    · exact appended.code
  linked := fun slot inside => by
    rw [Nat.zero_add]
    rcases Nat.lt_succ_iff_lt_or_eq.mp inside with before | last
    · exact (appended.links slot before).trans
        (linked_of_translated done before)
    · have previous : metadata.seqLength.toNat - 1 = slot := by omega
      have link := appended.linked
      rw [previous] at link
      rw [last]
      exact link
  ended := fun slot last => by
    have same : slot = metadata.seqLength.toNat := Nat.succ.inj last
    rw [Nat.zero_add, same]
    exact appended.ended

end Blocks

/--
A translation of a nonempty sequence that succeeds is faithful exactly when
the sequence reaches no element-wise operation with an unknown algorithm.
-/
theorem translation_faithful_iff (metadata : PostOpMetadata)
    (metaArg : OpArg) (m n : Int) (before after : PostOpList)
    (nonempty : 1 ≤ metadata.seqLength)
    (translates : dlpGemmTranslateToPostOpsList (some metadata) before
      metaArg m n = .ok after) :
    Faithful metadata metaArg m n before after ↔
      KnownAlgorithms metadata := by
  rcases translated_of_ok nonempty translates with
    ⟨bounded, seqVector, given, done⟩
  constructor
  · intro faithful other ops sequence array slot inside kind value unknown
    cases given.symm.trans sequence
    rcases faithful.visits with ⟨enough, visits⟩
    have live := walk_live (visits enough le_rfl)
      (List.mem_range.mpr inside)
    have carries := done.carries slot (Nat.zero_le slot) inside
    rw [kind] at carries
    rcases carries with ⟨all, array2, carries⟩
    cases array.symm.trans array2
    have disabled : (after slot).opCode = .disable := by
      rw [carries.code, unknown]
      rfl
    exact absurd disabled (of_decide_eq_false live)
  · intro known
    rcases Nat.exists_eq_add_of_le' (show 1 ≤ metadata.seqLength.toNat by
      omega) with ⟨count, length⟩
    have block := block_of_known given done known
    rw [length] at block
    have visits := visits_of_block block
    exact
      { bounded := bounded
        untouched := fun slot outside =>
          done.untouched slot (Or.inr outside)
        carries := ⟨seqVector, given, fun slot inside =>
          done.carries slot (Nat.zero_le slot) inside⟩
        visits := by
          rw [length]
          exact visits
        keyed := by
          rw [length]
          exact keyed_of_visits visits
        glu := by
          intro unit present extended appends
          have appended := appended_of_ok present (by omega) appends
          have visits := visits_of_block
            (block_of_appended given done known appended)
          exact ⟨visits, keyed_of_visits visits, appended.output⟩ }

/-- An element-wise operation and a bias of four elements behind it. -/
def eltwiseThenBias (algoType : DlpEltAlgoType) : PostOpMetadata where
  scale := none
  eltwise := some fun _ => ⟨none, ⟨none, none, algoType, .invalid⟩⟩
  bias := some fun _ => ⟨some 64, .f32, none, none, 4⟩
  matrixAdd := none
  matrixMul := none
  seqLength := 2
  seqVector := some fun i => if i = 0 then .eltwise else .bias
  glu := none

theorem translation_faithful_iff_relu :
    ∃ after, dlpGemmTranslateToPostOpsList (some (eltwiseThenBias .relu))
        (fun _ => disabledNode) (.order 'r') 4 4 = .ok after ∧
      (Faithful (eltwiseThenBias .relu) (.order 'r') 4 4
        (fun _ => disabledNode) after ↔
          KnownAlgorithms (eltwiseThenBias .relu)) :=
  ⟨_, rfl, translation_faithful_iff (eltwiseThenBias .relu) (.order 'r') 4 4
    (fun _ => disabledNode) _ (by decide) rfl⟩

/-- An unknown algorithm hides the bias behind it. -/
theorem unknown_algorithm_hides_bias :
    ∃ after, dlpGemmTranslateToPostOpsList
        (some (eltwiseThenBias (.other 9))) (fun _ => disabledNode)
        (.order 'r') 4 4 = .ok after ∧
      ¬ Faithful (eltwiseThenBias (.other 9)) (.order 'r') 4 4
        (fun _ => disabledNode) after := by
  refine ⟨_, rfl, ?_⟩
  intro faithful
  rcases faithful.visits with ⟨enough, visits⟩
  have visited := visits (enough + 1) (Nat.le_succ enough)
  cases visited

end AoclDlp.PostOps.KernelOps
