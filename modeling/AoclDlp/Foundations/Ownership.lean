import Mathlib.Logic.Function.Basic

/-!
# Owned blocks

Blocks of an arena are owned through pointers: every owner has at most one, a
pointer that an owner holds leads to a block, and no two owners hold the same
one.  Allocation, release and the transfer of a pointer keep that discipline,
and each of them leaves what the other owners read as it was.
-/

namespace AoclDlp.Foundations.Ownership

universe u v

/-- Blocks by address; fresh addresses start at `next`. -/
structure Arena (Block : Type u) where
  block : Nat → Option Block
  next : Nat

namespace Arena

variable {Block : Type u}

/-- No block is allocated. -/
def empty : Arena Block :=
  ⟨fun _ => none, 0⟩

/-- Allocate a block at the next address. -/
def alloc (arena : Arena Block) (content : Block) : Arena Block :=
  ⟨Function.update arena.block arena.next (some content), arena.next + 1⟩

/-- Release the block of a pointer; the null pointer is ignored. -/
def free (arena : Arena Block) : Option Nat → Arena Block
  | none => arena
  | some address =>
      { arena with block := Function.update arena.block address none }

/-- What a pointer leads to. -/
def read (arena : Arena Block) (pointer : Option Nat) : Option Block :=
  pointer.bind arena.block

@[simp]
theorem read_none (arena : Arena Block) : arena.read none = none :=
  rfl

@[simp]
theorem read_alloc_next (arena : Arena Block) (content : Block) :
    (arena.alloc content).read (some arena.next) = some content := by
  simp [read, alloc]

end Arena

variable {Block : Type u} {Owner : Type v}

/-- Every pointer that is held leads to a block of its own. -/
structure Owns (arena : Arena Block) (pointer : Owner → Option Nat) :
    Prop where
  live : ∀ owner address, pointer owner = some address →
    ∃ content, arena.block address = some content
  below : ∀ address content, arena.block address = some content →
    address < arena.next
  unique : ∀ owner other address, pointer owner = some address →
    pointer other = some address → owner = other

namespace Owns

variable {arena : Arena Block} {pointer : Owner → Option Nat}

theorem empty : Owns (Arena.empty : Arena Block)
    (fun _ : Owner => none) :=
  ⟨nofun, nofun, nofun⟩

theorem address_lt (owns : Owns arena pointer) {owner : Owner}
    {address : Nat} (held : pointer owner = some address) :
    address < arena.next := by
  rcases owns.live owner address held with ⟨content, found⟩
  exact owns.below address content found

/-- An allocation is read by no earlier owner. -/
theorem read_alloc (owns : Owns arena pointer) (content : Block)
    (owner : Owner) :
    (arena.alloc content).read (pointer owner) =
      arena.read (pointer owner) := by
  cases held : pointer owner with
  | none => rfl
  | some address =>
      have old := owns.address_lt held
      simp [Arena.read, Arena.alloc, Function.update_of_ne (Nat.ne_of_lt old)]

/-- A release is noticed by no other owner. -/
theorem read_free (owns : Owns arena pointer) {owner other : Owner}
    (different : other ≠ owner) :
    (arena.free (pointer owner)).read (pointer other) =
      arena.read (pointer other) := by
  cases released : pointer owner with
  | none => rfl
  | some address =>
      cases held : pointer other with
      | none => rfl
      | some kept =>
          have apart : kept ≠ address := by
            rintro rfl
            exact different (owns.unique other owner kept held released)
          simp [Arena.read, Arena.free, Function.update_of_ne apart]

variable [DecidableEq Owner]

/-- An owner lets go of its pointer. -/
theorem drop (owns : Owns arena pointer) (owner : Owner) :
    Owns arena (Function.update pointer owner none) := by
  have kept : ∀ other address,
      Function.update pointer owner none other = some address →
        pointer other = some address := by
    intro other address held
    by_cases same : other = owner
    · subst other
      rw [Function.update_self] at held
      cases held
    · rwa [Function.update_of_ne same] at held
  refine ⟨?_, owns.below, ?_⟩
  · intro other address held
    exact owns.live other address (kept other address held)
  · intro first second address left right
    exact owns.unique first second address (kept _ _ left) (kept _ _ right)

/-- An owner receives a fresh block. -/
theorem alloc (owns : Owns arena pointer) (owner : Owner)
    (content : Block) :
    Owns (arena.alloc content)
      (Function.update pointer owner (some arena.next)) := by
  refine ⟨?_, ?_, ?_⟩
  · intro other address held
    by_cases same : other = owner
    · subst other
      rw [Function.update_self] at held
      cases held
      exact ⟨content, by simp [Arena.alloc]⟩
    · rw [Function.update_of_ne same] at held
      rcases owns.live other address held with ⟨old, found⟩
      have earlier := owns.address_lt held
      exact ⟨old, by simpa [Arena.alloc, Nat.ne_of_lt earlier] using found⟩
  · intro address old found
    change address < arena.next + 1
    by_cases fresh : address = arena.next
    · omega
    · have earlier : arena.block address = some old := by
        simpa [Arena.alloc, fresh] using found
      have bound := owns.below address old earlier
      omega
  · intro first second address left right
    by_cases firstNew : first = owner <;> by_cases secondNew : second = owner
    · exact firstNew.trans secondNew.symm
    · subst first
      rw [Function.update_self] at left
      rw [Function.update_of_ne secondNew] at right
      cases left
      exact absurd (owns.address_lt right) (Nat.lt_irrefl _)
    · subst second
      rw [Function.update_self] at right
      rw [Function.update_of_ne firstNew] at left
      cases right
      exact absurd (owns.address_lt left) (Nat.lt_irrefl _)
    · rw [Function.update_of_ne firstNew] at left
      rw [Function.update_of_ne secondNew] at right
      exact owns.unique first second address left right

/-- An owner releases its block. -/
theorem free (owns : Owns arena pointer) (owner : Owner) :
    Owns (arena.free (pointer owner))
      (Function.update pointer owner none) := by
  have dropped := owns.drop owner
  refine ⟨?_, ?_, dropped.unique⟩
  · intro other address held
    by_cases same : other = owner
    · subst other
      rw [Function.update_self] at held
      cases held
    · rw [Function.update_of_ne same] at held
      rcases owns.live other address held with ⟨content, found⟩
      have kept := owns.read_free same
      rw [held] at kept
      exact ⟨content, kept.trans found⟩
  · intro address content found
    cases released : pointer owner with
    | none =>
        rw [released] at found
        exact owns.below address content found
    | some gone =>
        rw [released] at found
        by_cases same : address = gone
        · subst same
          simp [Arena.free] at found
        · exact owns.below address content (by
            simpa [Arena.free, same] using found)

/-- A pointer moves from one owner to another. -/
theorem move (owns : Owns arena pointer) (target source : Owner) :
    Owns arena (Function.update (Function.update pointer source none) target
      (pointer source)) := by
  have held : ∀ owner address,
      Function.update (Function.update pointer source none) target
          (pointer source) owner = some address →
        (owner = target ∧ pointer source = some address) ∨
          (owner ≠ target ∧ owner ≠ source ∧
            pointer owner = some address) := by
    intro owner address holds
    by_cases atTarget : owner = target
    · subst owner
      rw [Function.update_self] at holds
      exact Or.inl ⟨rfl, holds⟩
    · rw [Function.update_of_ne atTarget] at holds
      by_cases atSource : owner = source
      · subst owner
        rw [Function.update_self] at holds
        cases holds
      · rw [Function.update_of_ne atSource] at holds
        exact Or.inr ⟨atTarget, atSource, holds⟩
  refine ⟨?_, owns.below, ?_⟩
  · intro owner address holds
    rcases held owner address holds with ⟨-, moved⟩ | ⟨-, -, kept⟩
    · exact owns.live source address moved
    · exact owns.live owner address kept
  · intro first second address left right
    rcases held first address left with ⟨one, moved⟩ | ⟨-, apart, kept⟩ <;>
      rcases held second address right with ⟨two, also⟩ | ⟨-, off, stays⟩
    · exact one.trans two.symm
    · exact absurd (owns.unique second source address stays moved) off
    · exact absurd (owns.unique first source address kept also) apart
    · exact owns.unique first second address kept stays

end Owns

end AoclDlp.Foundations.Ownership
