import AoclDlp.Jit.S8Generator

/-!
# Register allocation of the s8s8s32 micro-kernel

`allocateReg` counts the accumulators, the register of the offset and at least
one register of A, and leaves out the registers of B, which it places between
them.  The roles share no register exactly when the registers of B fit as well.
-/

namespace AoclDlp.Jit.S8Allocation

open AoclDlp.Jit.S8Generator
open AoclDlp.Jit.S8Generator.GeneratorParams

variable (params : GeneratorParams)

/-- The vector registers that the code names, by role: A, the offset, B and
the accumulators. -/
def registers : List Int :=
  (0 :: params.vec128RegIdx ::
    (List.range params.bReg).map fun j : Nat => params.bRegIdx + j) ++
  (List.range params.cReg).map fun t : Nat => params.cRegIdx + t

/-- Every register exists, and no two roles share one. -/
structure Separate : Prop where
  distinct : (registers params).Nodup
  exist : ∀ register ∈ registers params, 0 ≤ register ∧ register < numRegs

/-- The registers of B fit as well. -/
def Fits : Prop :=
  params.cReg + params.bReg + 2 ≤ numRegs

instance : Decidable (Fits params) :=
  inferInstanceAs (Decidable (_ ≤ _))

theorem nodup_run (base : Int) (count : Nat) :
    ((List.range count).map fun index : Nat => base + index).Nodup :=
  (List.nodup_range).map fun first second same => by
    simpa using same

theorem mem_registers {register : Int} :
    register ∈ registers params ↔
      register = 0 ∨ register = params.vec128RegIdx ∨
      (∃ j < params.bReg, params.bRegIdx + (j : Int) = register) ∨
      ∃ t < params.cReg, params.cRegIdx + (t : Int) = register := by
  simp [registers]

theorem separate_of_fits (fits : Fits params) : Separate params := by
  unfold Fits numRegs at fits
  constructor
  · refine List.Nodup.append ?_ (nodup_run _ _) ?_
    · refine List.nodup_cons.mpr ⟨?_, List.nodup_cons.mpr
        ⟨?_, nodup_run _ _⟩⟩
      · intro member
        rcases List.mem_cons.mp member with zero | listed
        · unfold vec128RegIdx bRegIdx cRegIdx numRegs at zero
          omega
        · rcases List.mem_map.mp listed with ⟨j, _, zero⟩
          unfold bRegIdx cRegIdx numRegs at zero
          omega
      · intro listed
        rcases List.mem_map.mp listed with ⟨j, _, same⟩
        unfold vec128RegIdx at same
        omega
    · intro register early late
      rcases List.mem_map.mp late with ⟨t, _, rfl⟩
      unfold vec128RegIdx bRegIdx cRegIdx numRegs at early
      simp only [List.mem_cons, List.mem_map, List.mem_range] at early
      omega
  · intro register member
    rcases (mem_registers params).mp member with
      rfl | rfl | ⟨j, below, rfl⟩ | ⟨t, below, rfl⟩ <;>
      simp only [vec128RegIdx, bRegIdx, cRegIdx, numRegs] <;> omega

/-- The roles are separate exactly when the registers of B fit. -/
theorem separate_iff_fits : Separate params ↔ Fits params := by
  refine ⟨?_, separate_of_fits params⟩
  rintro ⟨distinct, exist⟩
  have offset := exist params.vec128RegIdx ((mem_registers params).mpr (by simp))
  have apart : params.vec128RegIdx ≠ 0 := by
    intro zero
    have heads := (List.nodup_cons.mp distinct).1
    exact heads (by rw [zero]; exact List.mem_cons_self)
  unfold Fits numRegs
  unfold vec128RegIdx bRegIdx cRegIdx numRegs at offset apart
  omega

/-! ## Register numbers -/

section Numbers

variable {params} (fits : Fits params)

include fits

theorem zmmC_eq (t : Nat) : params.zmmC t = numRegs - params.cReg + t := by
  unfold Fits at fits
  unfold zmmC cRegIdx
  omega

theorem zmmB_eq (j : Nat) :
    params.zmmB j = numRegs - params.cReg - params.bReg + j := by
  unfold Fits at fits
  unfold zmmB bRegIdx cRegIdx
  omega

theorem zmm128_eq :
    params.zmm128 = numRegs - params.cReg - params.bReg - 1 := by
  unfold Fits at fits
  unfold zmm128 vec128RegIdx bRegIdx cRegIdx
  omega

theorem zmmC_inj {t other : Nat} : params.zmmC t = params.zmmC other ↔ t = other := by
  rw [zmmC_eq fits, zmmC_eq fits]
  omega

theorem zmmB_inj {j other : Nat} : params.zmmB j = params.zmmB other ↔ j = other := by
  rw [zmmB_eq fits, zmmB_eq fits]
  omega

theorem zmmC_ne_zmmB (t : Nat) {j : Nat} (below : j < params.bReg) :
    params.zmmC t ≠ params.zmmB j := by
  unfold Fits at fits
  rw [zmmC_eq fits, zmmB_eq fits]
  omega

theorem zmmC_ne_zmm128 (t : Nat) : params.zmmC t ≠ params.zmm128 := by
  unfold Fits at fits
  rw [zmmC_eq fits, zmm128_eq fits]
  omega

theorem zmmB_ne_zmm128 (j : Nat) : params.zmmB j ≠ params.zmm128 := by
  unfold Fits at fits
  rw [zmmB_eq fits, zmm128_eq fits]
  omega

theorem zmmC_ne_zmmA (t : Nat) : params.zmmC t ≠ zmmA := by
  unfold Fits at fits
  rw [zmmC_eq fits, zmmA]
  omega

theorem zmmB_ne_zmmA (j : Nat) : params.zmmB j ≠ zmmA := by
  unfold Fits at fits
  rw [zmmB_eq fits, zmmA]
  omega

theorem zmm128_ne_zmmA : params.zmm128 ≠ zmmA := by
  unfold Fits at fits
  rw [zmm128_eq fits, zmmA]
  omega

end Numbers

/-! ## Accumulators by row and column -/

section Places

variable {params} {i j t : Nat}

theorem accumulator_lt (inRow : i < params.MR) (inColumn : j < params.bReg) :
    i * params.bReg + j < params.cReg := by
  have rows : (i + 1) * params.bReg ≤ params.MR * params.bReg :=
    Nat.mul_le_mul_right _ inRow
  unfold cReg
  rw [Nat.succ_mul] at rows
  omega

theorem accumulator_div (i : Nat) (inColumn : j < params.bReg) :
    (i * params.bReg + j) / params.bReg = i := by
  rw [Nat.mul_comm, Nat.mul_add_div (by omega), Nat.div_eq_of_lt inColumn,
    Nat.add_zero]

theorem accumulator_mod (i : Nat) (inColumn : j < params.bReg) :
    (i * params.bReg + j) % params.bReg = j := by
  rw [Nat.mul_comm, Nat.mul_add_mod, Nat.mod_eq_of_lt inColumn]

theorem accumulator_row (below : t < params.cReg) :
    t / params.bReg < params.MR :=
  Nat.div_lt_of_lt_mul (by rwa [Nat.mul_comm])

theorem bReg_pos_of_lt (below : t < params.cReg) : 0 < params.bReg := by
  rcases Nat.eq_zero_or_pos params.bReg with none | some
  · rw [cReg, none, Nat.mul_zero] at below
    exact absurd below (Nat.not_lt_zero t)
  · exact some

end Places

end AoclDlp.Jit.S8Allocation
