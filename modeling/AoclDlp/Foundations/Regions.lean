import AoclDlp.Foundations.Lanes

/-!
# What code writes to memory

The effect of a piece of code on memory is a partial map from addresses to
bytes that is laid over the memory before.  Regions are counted from a base
address, so that writes to one area of memory are described by the set of the
places that they have reached and by one image of the whole area, in whatever
order the places are written.
-/

namespace AoclDlp.Foundations.Regions

open AoclDlp.Foundations.Lanes

/-- A byte for each address that is written. -/
abbrev Writes := BitVec 64 → Option (BitVec 8)

/-- Memory behind writes. -/
def overlay (writes : Writes) (memory : Memory) : Memory :=
  fun place => (writes place).or (memory place)

/-- Writes, and later ones. -/
def Writes.andThen (first second : Writes) : Writes :=
  fun place => (second place).or (first place)

/-- The selected places behind a base address. -/
def region (base : BitVec 64) (keep : Nat → Bool)
    (image : Nat → BitVec 8) : Writes :=
  fun place =>
    if keep (place - base).toNat then some (image (place - base).toNat)
    else none

/-- A place that does not lie in the first bytes behind an address. -/
def Outside (base : BitVec 64) (count : Nat) (place : BitVec 64) : Prop :=
  count ≤ (place - base).toNat

/-! ## Overlays -/

theorem overlay_none (memory : Memory) :
    overlay (fun _ => none) memory = memory :=
  rfl

theorem overlay_overlay (first second : Writes) (memory : Memory) :
    overlay second (overlay first memory) =
      overlay (first.andThen second) memory := by
  funext place
  simp only [overlay, Writes.andThen, Option.or_assoc]

theorem Writes.andThen_assoc (first second third : Writes) :
    (first.andThen second).andThen third =
      first.andThen (second.andThen third) := by
  funext place
  simp only [Writes.andThen, Option.or_assoc]

/-- Writes to places that others leave alone. -/
def Writes.Disjoint (first second : Writes) : Prop :=
  ∀ place, first place = none ∨ second place = none

theorem Writes.andThen_comm {first second : Writes}
    (disjoint : first.Disjoint second) :
    first.andThen second = second.andThen first := by
  funext place
  rcases disjoint place with missed | missed <;>
    simp [Writes.andThen, missed]

/-- A place that is not written. -/
theorem overlay_miss {writes : Writes} {place : BitVec 64}
    (missed : writes place = none) (memory : Memory) :
    overlay writes memory place = memory place := by
  rw [overlay, missed, Option.none_or]

/-- A place that is written. -/
theorem overlay_hit {writes : Writes} {place : BitVec 64}
    {byte : BitVec 8} (written : writes place = some byte)
    (memory : Memory) : overlay writes memory place = some byte := by
  rw [overlay, written, Option.some_or]

theorem overlay_isSome {memory : Memory} {place : BitVec 64}
    (mapped : (memory place).isSome) (writes : Writes) :
    (overlay writes memory place).isSome := by
  rw [overlay, Option.isSome_or, mapped, Bool.or_true]

/-! ## Regions -/

section Region

variable {base : BitVec 64} {keep other : Nat → Bool}
variable {image : Nat → BitVec 8}

theorem region_miss {place : BitVec 64}
    (dropped : keep (place - base).toNat = false) :
    region base keep image place = none := by
  rw [region, dropped, if_neg Bool.false_ne_true]

theorem region_hit {place : BitVec 64}
    (kept : keep (place - base).toNat = true) :
    region base keep image place = some (image (place - base).toNat) := by
  rw [region, if_pos kept]

/-- Regions of one image. -/
theorem region_union (base : BitVec 64) (keep other : Nat → Bool)
    (image : Nat → BitVec 8) :
    (region base keep image).andThen (region base other image) =
      region base (fun index => keep index || other index) image := by
  funext place
  simp only [Writes.andThen, region]
  generalize (place - base).toNat = index
  rcases Bool.eq_false_or_eq_true (keep index) with kept | dropped <;>
    rcases Bool.eq_false_or_eq_true (other index) with present | absent <;>
      simp [*]

theorem region_congr {picture : Nat → BitVec 8}
    (same : ∀ index < 2 ^ 64, keep index = other index)
    (images : ∀ index, keep index = true → image index = picture index) :
    region base keep image = region base other picture := by
  funext place
  unfold region
  rw [same _ (place - base).isLt]
  cases kept : other (place - base).toNat with
  | false => rfl
  | true => rw [images _ ((same _ (place - base).isLt).trans kept)]

/-- The place of an address behind another one. -/
theorem sub_offset (base place : BitVec 64) {first : Nat}
    (least : first ≤ (place - base).toNat) :
    (place - offset base first).toNat = (place - base).toNat - first := by
  have bound := (place - base).isLt
  have small : first < 2 ^ 64 := by omega
  have split : place - offset base first =
      (place - base) - BitVec.ofNat 64 first := by
    unfold offset
    rw [BitVec.sub_sub]
  have value : (BitVec.ofNat 64 first).toNat = first := by
    rw [BitVec.toNat_ofNat, Nat.mod_eq_of_lt small]
  rw [split, BitVec.toNat_sub, value]
  omega

/-- An address before another one. -/
theorem sub_offset_of_lt (base place : BitVec 64) {first : Nat}
    (small : first ≤ 2 ^ 64) (before : (place - base).toNat < first) :
    (place - offset base first).toNat =
      2 ^ 64 - first + (place - base).toNat := by
  have split : place - offset base first =
      (place - base) - BitVec.ofNat 64 first := by
    unfold offset
    rw [BitVec.sub_sub]
  rw [split, BitVec.toNat_sub, BitVec.toNat_ofNat]
  rcases Nat.lt_or_ge first (2 ^ 64) with below | full
  · rw [Nat.mod_eq_of_lt below]
    omega
  · have whole : first = 2 ^ 64 := by omega
    rw [whole, Nat.mod_self]
    omega

/-- A region behind a base, counted from the base. -/
theorem region_offset (base : BitVec 64) {first count : Nat}
    (fits : first + count ≤ 2 ^ 64)
    (within : ∀ index, keep index = true → index < count) :
    region (offset base first) keep image =
      region base
        (fun index => decide (first ≤ index) && keep (index - first))
        fun index => image (index - first) := by
  funext place
  unfold region
  rcases Nat.lt_or_ge (place - base).toNat first with before | behind
  · have far := sub_offset_of_lt base place (by omega) before
    have dropped : keep (place - offset base first).toNat = false := by
      by_contra kept
      have below := within _ (Bool.not_eq_false _ ▸ kept)
      omega
    have absent : decide (first ≤ (place - base).toNat) = false :=
      decide_eq_false (by omega)
    simp only [dropped, absent, Bool.false_and]
    rfl
  · have present : decide (first ≤ (place - base).toNat) = true :=
      decide_eq_true behind
    simp only [sub_offset base place behind, present, Bool.true_and]

/-- An address as a number. -/
theorem offset_toNat (base : BitVec 64) (index : Nat) :
    offset base index = BitVec.ofNat 64 (base.toNat + index) := by
  rw [offset, BitVec.ofNat_add, BitVec.ofNat_toNat, BitVec.setWidth_eq]

/-- The index of an address behind its base. -/
theorem offset_index (base : BitVec 64) {index : Nat}
    (below : index < 2 ^ 64) : (offset base index - base).toNat = index := by
  rw [offset, BitVec.add_comm, BitVec.add_sub_cancel, BitVec.toNat_ofNat,
    Nat.mod_eq_of_lt below]

/-- The bytes up to a count. -/
abbrev upTo (count : Nat) : Nat → Bool :=
  fun index => decide (index < count)

/-- A region that grows at its end. -/
theorem region_append (base : BitVec 64) {count more : Nat}
    (fits : count + more ≤ 2 ^ 64) {next : Nat → BitVec 8}
    (continues : ∀ index < more, next index = image (count + index)) :
    (region base (upTo count) image).andThen
        (region (offset base count) (upTo more) next) =
      region base (upTo (count + more)) image := by
  rw [region_offset base fits fun _ kept => of_decide_eq_true kept]
  have same : region base
      (fun index => decide (count ≤ index) && upTo more (index - count))
      (fun index => next (index - count)) =
        region base
          (fun index => decide (count ≤ index) && upTo more (index - count))
          image := by
    refine region_congr (fun _ _ => rfl) fun index kept => ?_
    simp only [Bool.and_eq_true, decide_eq_true_eq] at kept
    rw [continues _ kept.2, Nat.add_sub_of_le kept.1]
  rw [same, region_union]
  refine region_congr (fun index _ => ?_) fun _ _ => rfl
  simp only [← Bool.decide_and, ← Bool.decide_or, decide_eq_decide]
  omega

theorem region_zero (base : BitVec 64) (image : Nat → BitVec 8) :
    region base (upTo 0) image = fun _ => none := by
  funext place
  exact region_miss (decide_eq_false (Nat.not_lt_zero _))

theorem region_outside {count : Nat} {place : BitVec 64}
    (outside : Outside base count place) :
    region base (upTo count) image place = none :=
  region_miss (decide_eq_false (Nat.not_lt.mpr outside))

theorem Outside.mono {count fewer : Nat} {place : BitVec 64}
    (outside : Outside base count place) (fewerLe : fewer ≤ count) :
    Outside base fewer place :=
  fewerLe.trans outside

/-- A place outside an area is outside its parts. -/
theorem Outside.part {count first part : Nat} {place : BitVec 64}
    (outside : Outside base count place) (inside : first + part ≤ count) :
    Outside (offset base first) part place := by
  unfold Outside at *
  rw [sub_offset base place (by omega)]
  omega

end Region

/-! ## Stores -/

/-- The bytes of a register by number. -/
def byteAt (value : Zmm) (index : Nat) : BitVec 8 :=
  if inside : index < 64 then value ⟨index, inside⟩ else 0

/-- Selected bytes of a register by number. -/
def keptAt (keep : Fin 64 → Bool) (index : Nat) : Bool :=
  if inside : index < 64 then keep ⟨index, inside⟩ else false

/-- A store is an overlay. -/
theorem writeBytes_overlay {memory : Memory} {address : BitVec 64}
    {keep : Fin 64 → Bool} (value : Zmm)
    (mapped : ∀ index, keep index = true →
      (memory (offset address index)).isSome) :
    writeBytes memory address keep value =
      some (overlay (region address (keptAt keep) (byteAt value))
        memory) := by
  rw [writeBytes, if_pos mapped]
  congr 1
  funext place
  unfold overlay region keptAt byteAt
  split_ifs with inside kept <;> first | rfl | simp_all

/-! ## Words -/

theorem byte_lt (index : Nat) : index % 4 < 4 :=
  Nat.mod_lt index (by decide)

/-- Words as bytes. -/
def wordBytes (words : Nat → BitVec 32) (index : Nat) : BitVec 8 :=
  byteOf (words (index / 4)) ⟨index % 4, byte_lt index⟩

/-- Words behind others. -/
theorem wordBytes_shift (words : Nat → BitVec 32) (first index : Nat) :
    wordBytes (fun j => words (first + j)) index =
      wordBytes words (4 * first + index) := by
  have word : (4 * first + index) / 4 = first + index / 4 := by omega
  have byte : (4 * first + index) % 4 = index % 4 := by omega
  simp only [wordBytes, word, byte]

/-- Words behind an address. -/
def WordsAt (memory : Memory) (base : BitVec 64) (count : Nat)
    (words : Nat → BitVec 32) : Prop :=
  ∀ index < 4 * count, memory (offset base index) =
    some (wordBytes words index)

/-- Sixteen words in a register. -/
def wordZmm (words : Nat → BitVec 32) (block : Nat) : Zmm :=
  ofDwords fun lane => words (16 * block + lane)

@[simp]
theorem dword_wordZmm (words : Nat → BitVec 32) (block : Nat)
    (lane : Fin 16) :
    dword (wordZmm words block) lane = words (16 * block + lane) :=
  dword_ofDwords _ lane

theorem wordZmm_apply (words : Nat → BitVec 32) (block : Nat)
    (index : Fin 64) :
    wordZmm words block index = wordBytes words (64 * block + index) := by
  have word : (64 * block + index.val) / 4 = 16 * block + index / 4 := by
    omega
  have byte : (64 * block + index.val) % 4 = index % 4 := by omega
  simp only [wordZmm, ofDwords, wordBytes, word, byte]

/-- Registers with the same doublewords up to a lane. -/
theorem byteAt_congr {value other : Zmm} {lanes : Nat}
    (same : ∀ lane : Fin 16, lane.val < lanes →
      dword value lane = dword other lane) {index : Nat}
    (below : index < 4 * lanes) : byteAt value index = byteAt other index := by
  unfold byteAt
  split_ifs with inside
  · have byte : (⟨index, inside⟩ : Fin 64) =
        bytePlace ⟨index / 4, by omega⟩ ⟨index % 4, by omega⟩ := by
      refine Fin.ext ?_
      simp only [bytePlace]
      omega
    have words := same ⟨index / 4, by omega⟩
      (Nat.div_lt_of_lt_mul below)
    rw [byte, ← byteOf_dword value, ← byteOf_dword other, words]
  · rfl

/-- The doublewords that are kept whole. -/
theorem dword_keepBytes {keep : Fin 64 → Bool} {lanes : Nat}
    (kept : keptAt keep = upTo (4 * lanes)) (value : Zmm) {lane : Fin 16}
    (below : lane.val < lanes) :
    dword (keepBytes keep value) lane = dword value lane := by
  unfold dword
  congr 1
  funext place
  have selected := congrFun kept (bytePlace lane place).val
  have inside : (bytePlace lane place).val < 4 * lanes := by
    simp only [bytePlace]
    omega
  rw [keptAt, dif_pos (bytePlace lane place).isLt, upTo,
    decide_eq_true inside] at selected
  exact if_pos selected

/-! ## Bytes and words -/

/-- The first words behind an address lie apart from some bytes. -/
def Apart (dst colSum : BitVec 64) (bytes count : Nat) : Prop :=
  ∀ index < 4 * count, Outside dst bytes (offset colSum index)

/-- Bytes behind one address and, if selected, words behind another. -/
def areas (dst colSum : BitVec 64) (sums : Bool) (bytes count : Nat)
    (image : Nat → BitVec 8) (words : Nat → BitVec 32) : Writes :=
  (region dst (upTo bytes) image).andThen
    (if sums then region colSum (upTo (4 * count)) (wordBytes words)
    else fun _ => none)

section Areas

variable {dst colSum : BitVec 64} {sums : Bool} {bytes count : Nat}
variable {image : Nat → BitVec 8} {words : Nat → BitVec 32}

/-- An address is the place that its distance from a base names. -/
theorem offset_distance (base place : BitVec 64) :
    offset base (place - base).toNat = place := by
  rw [offset, BitVec.ofNat_toNat, BitVec.setWidth_eq, BitVec.add_comm,
    BitVec.sub_add_cancel]

theorem Apart.disjoint (apart : Apart dst colSum bytes count)
    (image sumImage : Nat → BitVec 8) :
    (region colSum (upTo (4 * count)) sumImage).Disjoint
      (region dst (upTo bytes) image) := by
  intro place
  rcases Nat.lt_or_ge (place - colSum).toNat (4 * count) with below | behind
  · have outside := apart _ below
    rw [offset_distance] at outside
    exact .inr (region_outside outside)
  · exact .inl (region_outside behind)

/-- Fewer words and a part of the bytes. -/
theorem Apart.part (apart : Apart dst colSum bytes count)
    {first more fewer : Nat} (fits : first + more ≤ bytes)
    (fewerLe : fewer ≤ count) :
    Apart (offset dst first) colSum more fewer :=
  fun index below => (apart index (by omega)).part fits

/-- Areas that grow at their ends. -/
theorem areas_append {more next : Nat} {nextImage : Nat → BitVec 8}
    {nextWords : Nat → BitVec 32} (bytesFit : bytes + more ≤ 2 ^ 64)
    (wordsFit : sums = true → 4 * (count + next) ≤ 2 ^ 64)
    (apart : sums = true → Apart (offset dst bytes) colSum more count)
    (images : ∀ index < more, nextImage index = image (bytes + index))
    (continues : ∀ index < next, nextWords index = words (count + index)) :
    (areas dst colSum sums bytes count image words).andThen
      (areas (offset dst bytes) (offset colSum (4 * count)) sums more next
        nextImage nextWords) =
      areas dst colSum sums (bytes + more) (count + next) image words := by
  have packed := region_append dst bytesFit images
  unfold areas
  cases sums with
  | true =>
      have summed : (region colSum (upTo (4 * count))
          (wordBytes words)).andThen
            (region (offset colSum (4 * count)) (upTo (4 * next))
              (wordBytes nextWords)) =
          region colSum (upTo (4 * (count + next))) (wordBytes words) := by
        have fits := wordsFit rfl
        rw [Nat.mul_add, region_append colSum (by omega)]
        intro index below
        have word : index / 4 < next := Nat.div_lt_of_lt_mul below
        rw [← wordBytes_shift, wordBytes, wordBytes, continues _ word]
      have disjoint := (apart rfl).disjoint nextImage (wordBytes words)
      rw [if_pos rfl, if_pos rfl, if_pos rfl, Writes.andThen_assoc,
        ← Writes.andThen_assoc _ _ (region (offset colSum _) _ _),
        Writes.andThen_comm disjoint, Writes.andThen_assoc, summed,
        ← Writes.andThen_assoc, packed]
  | false => exact packed

/-- A packed byte. -/
theorem areas_bytes (fits : bytes ≤ 2 ^ 64)
    (apart : sums = true → Apart dst colSum bytes count) {index : Nat}
    (inside : index < bytes) :
    areas dst colSum sums bytes count image words (offset dst index) =
      some (image index) := by
  have place := offset_index dst (inside.trans_le fits)
  have packed : region dst (upTo bytes) image (offset dst index) =
      some (image index) := by
    rw [region_hit (by rw [place]; exact decide_eq_true inside), place]
  unfold areas Writes.andThen
  split_ifs with selected
  · have missed := (apart selected).disjoint image (wordBytes words)
      (offset dst index)
    rw [packed] at missed
    rw [missed.resolve_right (Option.some_ne_none _), Option.none_or,
      packed]
  · rw [Option.none_or, packed]

/-- A byte of a word. -/
theorem areas_words (selected : sums = true) (fits : 4 * count ≤ 2 ^ 64)
    {index : Nat} (inside : index < 4 * count) :
    areas dst colSum sums bytes count image words (offset colSum index) =
      some (wordBytes words index) := by
  have place := offset_index colSum (inside.trans_le fits)
  unfold areas Writes.andThen
  rw [if_pos selected,
    region_hit (by rw [place]; exact decide_eq_true inside), place,
    Option.some_or]

/-- A place outside both areas. -/
theorem areas_miss {place : BitVec 64} (packed : Outside dst bytes place)
    (summed : sums = true → Outside colSum (4 * count) place) :
    areas dst colSum sums bytes count image words place = none := by
  unfold areas Writes.andThen
  rw [region_outside packed, Option.or_none]
  split_ifs with selected
  · exact region_outside (summed selected)
  · rfl

theorem areas_zero (image : Nat → BitVec 8) (words : Nat → BitVec 32) :
    areas dst colSum sums 0 0 image words = fun _ => none := by
  funext place
  exact areas_miss (Nat.zero_le _) fun _ => Nat.zero_le _

end Areas

end AoclDlp.Foundations.Regions
