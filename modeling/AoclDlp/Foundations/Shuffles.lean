import AoclDlp.Foundations.Avx512

/-!
# Data movement between vector registers

Instructions that move bytes between registers do not look at them.  A list of
such instructions therefore acts on every register file as it acts on the file
whose bytes are their own addresses, and that one run, on closed data, says
where each byte of the result comes from.
-/

namespace AoclDlp.Foundations.Shuffles

open AoclDlp.Foundations.Assembly
open AoclDlp.Foundations.Avx512
open AoclDlp.Foundations.Lanes

universe u v

/-- Registers over any kind of byte. -/
abbrev File (Byte : Type u) := Nat → Fin 64 → Byte

/-- The instructions; `permute` has its selectors in a register. -/
inductive Shuffle where
  | move (width : Width) (dst src : Nat)
  | unpackBytes (high : Bool) (width : Width) (dst left right : Nat)
  | unpackWords (high : Bool) (width : Width) (dst left right : Nat)
  | unpackDwords (high : Bool) (dst left right : Nat)
  | unpackQwords (high : Bool) (dst left right : Nat)
  | lanes (dst left right : Nat) (control : Nat)
  | insert (dst left right : Nat) (place : Fin 4)
  | permute (dst register : Nat) (selector : Fin 8 → Fin 16) (other : Nat)

namespace Shuffle

/-- The register that an instruction writes. -/
def dst : Shuffle → Nat
  | move _ dst _ => dst
  | unpackBytes _ _ dst _ _ => dst
  | unpackWords _ _ dst _ _ => dst
  | unpackDwords _ dst _ _ => dst
  | unpackQwords _ dst _ _ => dst
  | lanes dst _ _ _ => dst
  | insert dst _ _ _ => dst
  | permute dst _ _ _ => dst

/-- Bytes above a width are zero. -/
def clipped {Byte : Type u} [Zero Byte] (width : Width)
    (value : Fin 64 → Byte) : Fin 64 → Byte :=
  fun index => if index.val < width.bytes then value index else 0

/-- What an instruction writes. -/
def value {Byte : Type u} [Zero Byte] (file : File Byte) :
    Shuffle → Fin 64 → Byte
  | move width _ src => clipped width (file src)
  | unpackBytes high width _ left right =>
      clipped width (unpack 1 high (file left) (file right))
  | unpackWords high width _ left right =>
      clipped width (unpack 2 high (file left) (file right))
  | unpackDwords high _ left right =>
      unpack 4 high (file left) (file right)
  | unpackQwords high _ left right =>
      unpack 8 high (file left) (file right)
  | lanes _ left right control =>
      shuffleLanes control (file left) (file right)
  | insert _ left right place => insertLane place (file left) (file right)
  | permute dst _ selector other =>
      permuteQuads selector (file dst) (file other)

/-- One instruction. -/
def step {Byte : Type u} [Zero Byte] (file : File Byte)
    (shuffle : Shuffle) : File Byte :=
  fun register =>
    if register = shuffle.dst then shuffle.value file else file register

/-- A list of instructions. -/
def run {Byte : Type u} [Zero Byte] (program : List Shuffle)
    (file : File Byte) : File Byte :=
  program.foldl step file

/-! ## Movement is natural in the bytes -/

section Natural

variable {One : Type u} {Other : Type v} [Zero One] [Zero Other]
variable {change : One → Other}

theorem clipped_map (zero : change 0 = 0) (width : Width)
    (bytes : Fin 64 → One) :
    (clipped width fun index => change (bytes index)) =
      fun index => change (clipped width bytes index) := by
  funext index
  unfold clipped
  split_ifs
  · rfl
  · exact zero.symm

omit [Zero One] [Zero Other] in
theorem unpack_map (size : Nat) (high : Bool) (left right : Fin 64 → One) :
    (unpack size high (fun index => change (left index))
        fun index => change (right index)) =
      fun index => change (unpack size high left right index) := by
  funext index
  simp only [unpack]
  split_ifs <;> rfl

omit [Zero One] [Zero Other] in
theorem insertLane_map (place : Fin 4) (left right : Fin 64 → One) :
    (insertLane place (fun index => change (left index))
        fun index => change (right index)) =
      fun index => change (insertLane place left right index) := by
  funext index
  simp only [insertLane]
  split_ifs <;> rfl

omit [Zero One] [Zero Other] in
theorem shuffleLanes_map (control : Nat) (left right : Fin 64 → One) :
    (shuffleLanes control (fun index => change (left index))
        fun index => change (right index)) =
      fun index => change (shuffleLanes control left right index) := by
  funext index
  simp only [shuffleLanes]
  split_ifs <;> rfl

omit [Zero One] [Zero Other] in
theorem permuteQuads_map (selector : Fin 8 → Fin 16)
    (left right : Fin 64 → One) :
    (permuteQuads selector (fun index => change (left index))
        fun index => change (right index)) =
      fun index => change (permuteQuads selector left right index) := by
  funext index
  simp only [permuteQuads]
  split_ifs <;> rfl

theorem value_map (zero : change 0 = 0) (file : File One)
    (shuffle : Shuffle) :
    shuffle.value (fun register index => change (file register index)) =
      fun index => change (shuffle.value file index) := by
  cases shuffle with
  | move width dst src => exact clipped_map zero width _
  | unpackBytes high width dst left right =>
      rw [value, unpack_map]
      exact clipped_map zero width _
  | unpackWords high width dst left right =>
      rw [value, unpack_map]
      exact clipped_map zero width _
  | unpackDwords high dst left right => exact unpack_map 4 high _ _
  | unpackQwords high dst left right => exact unpack_map 8 high _ _
  | lanes dst left right control => exact shuffleLanes_map control _ _
  | insert dst left right place => exact insertLane_map place _ _
  | permute dst register selector other => exact permuteQuads_map selector _ _

theorem step_map (zero : change 0 = 0) (file : File One)
    (shuffle : Shuffle) :
    step (fun register index => change (file register index)) shuffle =
      fun register index => change (step file shuffle register index) := by
  funext register
  unfold step
  split_ifs
  · exact value_map zero file shuffle
  · rfl

/-- A program moves bytes the same way whatever they are. -/
theorem run_map (zero : change 0 = 0) (program : List Shuffle)
    (file : File One) :
    run program (fun register index => change (file register index)) =
      fun register index => change (run program file register index) := by
  induction program generalizing file with
  | nil => rfl
  | cons shuffle rest ih =>
      change run rest (step _ shuffle) = _
      rw [step_map zero]
      exact ih (step file shuffle)

end Natural

/-! ## Where bytes come from -/

/-- Zero, or a byte of the file before. -/
inductive Origin where
  | zero
  | byte (register : Nat) (place : Fin 64)
  deriving DecidableEq, Repr

instance : Zero Origin :=
  ⟨.zero⟩

/-- The byte at an origin. -/
def Origin.read {Byte : Type u} [Zero Byte] (file : File Byte) :
    Origin → Byte
  | .zero => 0
  | .byte register place => file register place

/-- The file in which every byte is its own origin. -/
def origins : File Origin :=
  Origin.byte

/-- Every byte after a program is the byte at its origin. -/
theorem run_eq_read {Byte : Type u} [Zero Byte] (program : List Shuffle)
    (file : File Byte) (register : Nat) (index : Fin 64) :
    run program file register index =
      (run program origins register index).read file := by
  have moved := run_map (show Origin.read file 0 = 0 from rfl) program origins
  exact congrFun (congrFun moved register) index

/-! ## The instructions of the processor -/

section Machine

universe w

variable {Reg : Type u} {Field : Type w}

/-- The instruction that moves bytes this way. -/
def instr : Shuffle → Instr Reg Field
  | move width dst src => .vmovdqa width dst src
  | unpackBytes high width dst left right =>
      .vpunpckbw high width dst left right
  | unpackWords high width dst left right =>
      .vpunpckwd high width dst left right
  | unpackDwords high dst left right => .vunpckps high dst left right
  | unpackQwords high dst left right => .vunpckpd high dst left right
  | lanes dst left right control => .vshuff32x4 dst left right control
  | insert dst left right place => .vinserti32x4 dst left right place
  | permute dst register _ other => .vpermt2q dst register other

/-- The selectors are in their register. -/
def Ready (file : File (BitVec 8)) : Shuffle → Prop
  | permute _ register selector _ => selectorOf (file register) = selector
  | _ => True

/-- The register of the selectors is another one than a given one. -/
def Spares (register : Nat) : Shuffle → Prop
  | permute _ selectors _ _ => selectors ≠ register
  | _ => True

instance (register : Nat) (shuffle : Shuffle) :
    Decidable (shuffle.Spares register) := by
  cases shuffle <;> unfold Spares <;> infer_instance

theorem clipped_eq (width : Width) (value : Zmm) :
    clipped width value = width.clip value := by
  funext index
  simp [clipped, Width.clip, keepBytes]

theorem step_ready {file : File (BitVec 8)} {shuffle other : Shuffle}
    (ready : other.Ready file) (spares : other.Spares shuffle.dst) :
    other.Ready (step file shuffle) := by
  cases other with
  | permute dst register selector source =>
      change selectorOf (step file shuffle register) = selector
      rw [step, if_neg spares]
      exact ready
  | _ => exact trivial

variable [DecidableEq Reg] [DecidableEq Field]

theorem exec_instr (machine : Machine Reg Field) {shuffle : Shuffle}
    (ready : shuffle.Ready machine.zmm) :
    exec shuffle.instr machine =
      some { machine with zmm := step machine.zmm shuffle } := by
  have written : exec (shuffle.instr : Instr Reg Field) machine =
      some (machine.setZmm shuffle.dst (shuffle.value machine.zmm)) := by
    cases shuffle with
    | move width dst src =>
        rw [value, clipped_eq]
        rfl
    | unpackBytes high width dst left right =>
        rw [value, clipped_eq]
        rfl
    | unpackWords high width dst left right =>
        rw [value, clipped_eq]
        rfl
    | permute dst register selector other =>
        change some (machine.setZmm dst (permuteQuads
          (selectorOf (machine.zmm register)) _ _)) = _
        rw [show selectorOf (machine.zmm register) = selector from ready]
        rfl
    | _ => rfl
  have updated : Function.update machine.zmm shuffle.dst
      (shuffle.value machine.zmm) = step machine.zmm shuffle := by
    funext register
    rw [Function.update_apply]
    rfl
  rw [written, Machine.setZmm, updated]

/-- A list of shuffles whose selectors are in registers that it leaves
alone. -/
theorem execAll_instrs (program : List Shuffle)
    (machine : Machine Reg Field)
    (ready : ∀ shuffle ∈ program, shuffle.Ready machine.zmm)
    (spares : ∀ shuffle ∈ program, ∀ other ∈ program,
      shuffle.Spares other.dst) :
    execAll semantics (program.map instr) machine =
      some { machine with zmm := run program machine.zmm } := by
  induction program generalizing machine with
  | nil => rfl
  | cons shuffle rest ih =>
      have first := exec_instr machine (ready shuffle List.mem_cons_self)
      have others := ih { machine with zmm := step machine.zmm shuffle }
        (fun other member => step_ready
          (ready other (List.mem_cons_of_mem _ member))
          (spares other (List.mem_cons_of_mem _ member) shuffle
            List.mem_cons_self))
        (fun one oneMember other otherMember =>
          spares one (List.mem_cons_of_mem _ oneMember) other
            (List.mem_cons_of_mem _ otherMember))
      rw [List.map_cons, execAll]
      change (exec _ machine).bind _ = _
      rw [first, Option.bind_some]
      exact others

end Machine

/-- Registers that a program does not write. -/
theorem run_of_not_dst {Byte : Type u} [Zero Byte] {program : List Shuffle}
    {register : Nat} (apart : ∀ shuffle ∈ program, shuffle.dst ≠ register)
    (file : File Byte) : run program file register = file register := by
  induction program generalizing file with
  | nil => rfl
  | cons shuffle rest ih =>
      change run rest (step file shuffle) register = _
      rw [ih (fun other member => apart other (List.mem_cons_of_mem _ member)),
        step, if_neg (apart shuffle List.mem_cons_self).symm]

end Shuffle

end AoclDlp.Foundations.Shuffles
