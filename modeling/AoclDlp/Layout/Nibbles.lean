import AoclDlp.Layout.ReorderRef

/-!
# Nibble pairs

The int4 paths store two elements in a byte: the element with an even index in
the low nibble, the next one in the high nibble.  Widening sign-extends a
nibble to int8; compressing keeps the low four bits of an int8 value.  Both
are linear over the elements, so a compressed run of sign-extended nibbles
widens back to itself.
-/

namespace AoclDlp.Layout.Nibbles

open AoclDlp.Foundations.Memory
open AoclDlp.Foundations.Rounding
open AoclDlp.Layout.ReorderRef

/-! ## The conversions of the source -/

/-- `dlp_s4_nibble_to_s8`. -/
def dlpS4NibbleToS8 (byte : UInt8) (hiNibble : Nat) : UInt8 :=
  let nib := if hiNibble ≠ 0 then (byte >>> 4) &&& 0x0F else byte &&& 0x0F
  (nib ^^^ 0x08) - 8

/-- The element `idx` of a nibble-packed buffer, widened. -/
def nibbleAt (source : Bytes) (idx : Nat) : UInt8 :=
  dlpS4NibbleToS8 (source (idx / 2)) (idx % 2)

/-- A cleared buffer holds zero nibbles. -/
theorem nibbleAt_zero (idx : Nat) : nibbleAt (fun _ => 0) idx = 0 := by
  have low : dlpS4NibbleToS8 0 0 = 0 := by decide
  have high : dlpS4NibbleToS8 0 1 = 0 := by decide
  rcases Nat.mod_two_eq_zero_or_one idx with even | odd
  · rw [nibbleAt, even, low]
  · rw [nibbleAt, odd, high]

/-- Two int8 values in one byte. -/
def nibblePair (lo hi : UInt8) : UInt8 :=
  (lo &&& 0x0F) ||| ((hi &&& (0x0F : UInt8)) <<< (4 : UInt8))

/-- The loop of `dlp_cvt_s8_to_s4_linear` over pairs, and its odd tail. -/
def pairLoop (dst src nElems : Nat) (source : Bytes) :
    Nat → Nat → Bytes → Bytes
  | 0, _, target => target
  | fuel + 1, i, target =>
      if i + 1 < nElems then
        pairLoop dst src nElems source fuel (i + 2)
          (Function.update target (dst + i / 2)
            (nibblePair (source (src + i)) (source (src + (i + 1)))))
      else if i < nElems then
        Function.update target (dst + i / 2) (source (src + i) &&& 0x0F)
      else target

/-- `dlp_cvt_s8_to_s4_linear`, from `src` of `source` to `dst` of `target`. -/
def dlpCvtS8ToS4Linear (dst src : Nat) (source : Bytes) (nElems : Nat)
    (target : Bytes) : Bytes :=
  pairLoop dst src nElems source nElems 0 target

/-- `dlp_cvt_s4_to_s8_linear`, from `src` of `source` to the start of
`target`. -/
def dlpCvtS4ToS8Linear (src : Nat) (source : Bytes) (nElems : Nat)
    (target : Bytes) : Bytes :=
  (List.range nElems).foldl
    (fun current i =>
      Function.update current i
        (dlpS4NibbleToS8 (source (src + i / 2)) (i % 2))) target

/-- `dlp_cvt_s4_to_s8_matrix`. -/
def dlpCvtS4ToS8Matrix (source : Bytes) (rows cols rs cs : Nat)
    (target : Bytes) : Bytes :=
  (List.range rows).foldl
    (fun current r =>
      (List.range cols).foldl
        (fun inRow c =>
          Function.update inRow (r * cols + c)
            (nibbleAt source (rs * r + cs * c))) current) target

/-! ## Nibbles survive compression -/

/-- A sign-extended nibble. -/
def IsS4 (byte : UInt8) : Prop :=
  ((byte &&& 0x0F) ^^^ 0x08) - 8 = byte

theorem isS4_zero : IsS4 0 := rfl

theorem low_of_high : ∀ bits : BitVec 8,
    ((bits &&& 15#8) <<< 4) &&& 15#8 = 0#8 := by
  decide

theorem high_of_low : ∀ bits : BitVec 8, (bits &&& 15#8) >>> 4 = 0#8 := by
  decide

theorem high_of_high : ∀ bits : BitVec 8,
    ((bits &&& 15#8) <<< 4) >>> 4 = bits &&& 15#8 := by
  decide

theorem low_of_extended : ∀ bits : BitVec 8,
    (((bits &&& 15#8) ^^^ 8#8) - 8#8) &&& 15#8 = bits &&& 15#8 := by
  decide

theorem nibblePair_low (lo hi : UInt8) :
    nibblePair lo hi &&& 0x0F = lo &&& 0x0F := by
  apply UInt8.toBitVec_inj.mp
  change ((lo.toBitVec &&& 15#8) ||| ((hi.toBitVec &&& 15#8) <<< 4)) &&&
    15#8 = lo.toBitVec &&& 15#8
  rw [BitVec.and_or_distrib_right, low_of_high, BitVec.or_zero,
    BitVec.and_assoc, BitVec.and_self]

theorem nibblePair_high (lo hi : UInt8) :
    (nibblePair lo hi >>> 4) &&& 0x0F = hi &&& 0x0F := by
  apply UInt8.toBitVec_inj.mp
  change (((lo.toBitVec &&& 15#8) ||| ((hi.toBitVec &&& 15#8) <<< 4)) >>>
    4) &&& 15#8 = hi.toBitVec &&& 15#8
  rw [BitVec.ushiftRight_or_distrib, high_of_low, high_of_high,
    BitVec.zero_or, BitVec.and_assoc, BitVec.and_self]

theorem isS4_extended (byte : UInt8) :
    IsS4 (((byte &&& 0x0F) ^^^ 0x08) - 8) := by
  have low : (((byte &&& 0x0F) ^^^ 0x08) - 8) &&& 0x0F = byte &&& 0x0F :=
    UInt8.toBitVec_inj.mp (low_of_extended byte.toBitVec)
  rw [IsS4, low]

theorem isS4_nibble (byte : UInt8) (hiNibble : Nat) :
    IsS4 (dlpS4NibbleToS8 byte hiNibble) := by
  unfold dlpS4NibbleToS8
  dsimp only
  split
  · exact isS4_extended (byte >>> 4)
  · exact isS4_extended byte

/-- A pair widens back to its elements. -/
theorem nibble_pair {lo hi : UInt8} (low : IsS4 lo) (high : IsS4 hi)
    (parity : Nat) :
    dlpS4NibbleToS8 (nibblePair lo hi) (parity % 2) =
      if parity % 2 = 0 then lo else hi := by
  unfold dlpS4NibbleToS8
  dsimp only
  by_cases even : parity % 2 = 0
  · rw [if_neg (not_not.mpr even), if_pos even, nibblePair_low]
    exact low
  · rw [if_pos even, if_neg even, nibblePair_high]
    exact high

/-! ## What the loops leave -/

theorem pairLoop_apply (dst src count : Nat) (source : Bytes)
    (fuel half : Nat) (target : Bytes) (enough : count ≤ half + fuel)
    (address : Nat) :
    pairLoop dst src (2 * count) source fuel (2 * half) target address =
      if dst + half ≤ address ∧ address < dst + count then
        nibblePair (source (src + 2 * (address - dst)))
          (source (src + (2 * (address - dst) + 1)))
      else target address := by
  induction fuel generalizing half target with
  | zero => exact (if_neg (by omega)).symm
  | succ fuel ih =>
      unfold pairLoop
      by_cases inside : 2 * half + 1 < 2 * count
      · rw [if_pos inside, show 2 * half + 2 = 2 * (half + 1) by ring,
          ih (half + 1) _ (by omega), Nat.mul_div_cancel_left half (by decide)]
        by_cases here : address = dst + half
        · rw [if_neg (by omega), if_pos (by omega), here,
            Function.update_self, Nat.add_sub_cancel_left]
        · rw [Function.update_of_ne here]
          exact if_congr (by omega) rfl rfl
      · rw [if_neg inside, if_neg (by omega)]
        exact (if_neg (by omega)).symm

/-- Compressing an even number of elements writes their pairs and nothing
else. -/
theorem dlpCvtS8ToS4Linear_apply (dst src count : Nat)
    (source target : Bytes) (address : Nat) :
    dlpCvtS8ToS4Linear dst src source (2 * count) target address =
      if dst ≤ address ∧ address < dst + count then
        nibblePair (source (src + 2 * (address - dst)))
          (source (src + (2 * (address - dst) + 1)))
      else target address :=
  pairLoop_apply dst src count source (2 * count) 0 target (by omega) address

/-- Widening writes the elements. -/
theorem dlpCvtS4ToS8Linear_apply (src : Nat) (source : Bytes) {nElems i : Nat}
    (below : i < nElems) (target : Bytes) :
    dlpCvtS4ToS8Linear src source nElems target i =
      dlpS4NibbleToS8 (source (src + i / 2)) (i % 2) :=
  foldl_update_range Function.injective_id _ target below

/-- The widened matrix is dense and row-major. -/
theorem dlpCvtS4ToS8Matrix_apply (source : Bytes) {rows cols p j : Nat}
    (rs cs : Nat) (row : p < rows) (column : j < cols) (target : Bytes) :
    dlpCvtS4ToS8Matrix source rows cols rs cs target (p * cols + j) =
      nibbleAt source (rs * p + cs * j) := by
  have flat : dlpCvtS4ToS8Matrix source rows cols rs cs target =
      ((List.range rows).flatMap fun r =>
        (List.range cols).map fun c => (r, c)).foldl
        (fun current cell =>
          Function.update current (cell.1 * cols + cell.2)
            (nibbleAt source (rs * cell.1 + cs * cell.2))) target := by
    simp only [dlpCvtS4ToS8Matrix, List.foldl_flatMap, List.foldl_map]
  have cells {cell : Nat × Nat}
      (member : cell ∈ (List.range rows).flatMap fun r =>
        (List.range cols).map fun c => (r, c)) : cell.2 < cols := by
    rcases List.mem_flatMap.mp member with ⟨r, _, inRow⟩
    rcases List.mem_map.mp inRow with ⟨c, inside, rfl⟩
    exact List.mem_range.mp inside
  rw [flat]
  apply @foldl_patch_hit UInt8 (Nat × Nat)
    (fun cell current => Function.update current (cell.1 * cols + cell.2)
      (nibbleAt source (rs * cell.1 + cs * cell.2)))
    (fun cell address => address = cell.1 * cols + cell.2)
    (fun cell _ => nibbleAt source (rs * cell.1 + cs * cell.2))
  · intro cell _
    refine ⟨?_, ?_⟩
    · rintro memory _ rfl
      exact Function.update_self _ _ _
    · intro memory address other
      exact Function.update_of_ne other _ _
  · refine ⟨(p, j), ?_, rfl⟩
    exact List.mem_flatMap.mpr ⟨p, List.mem_range.mpr row,
      List.mem_map_of_mem (List.mem_range.mpr column)⟩
  · intro cell member same
    rcases (mul_add_eq_iff column (cells member)).mp same with ⟨rowEq, colEq⟩
    rw [rowEq, colEq]

/-- Pairs of sign-extended nibbles widen back to them. -/
theorem widen_pairs {source pairs : Bytes} {count : Nat}
    (paired : ∀ a, a < count →
      pairs a = nibblePair (source (2 * a)) (source (2 * a + 1)))
    (nibbles : ∀ x, x < 2 * count → IsS4 (source x)) {first i nElems : Nat}
    (below : 2 * first + i < 2 * count) (inside : i < nElems)
    (scratch : Bytes) :
    dlpCvtS4ToS8Linear first pairs nElems scratch i =
      source (2 * first + i) := by
  rw [dlpCvtS4ToS8Linear_apply _ _ inside, paired _ (by omega),
    nibble_pair (nibbles _ (by omega)) (nibbles _ (by omega))]
  split
  · congr 1
    omega
  · congr 1
    omega

end AoclDlp.Layout.Nibbles
