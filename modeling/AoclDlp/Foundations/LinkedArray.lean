import Mathlib.Data.List.Range

/-!
# Lists threaded through an array

A list can live in an array whose slots name their successor.  A walk follows
the links from a slot until there is no slot or the slot is a stopper; it
needs fuel, since links may form a cycle.  A walk with enough fuel does not
depend on the fuel, visits no stopper, and goes through a block of
consecutively linked slots in order.
-/

namespace AoclDlp.Foundations.LinkedArray

variable (next : Nat → Option Nat) (stops : Nat → Bool)

/-- The slots that a walk visits, none when it runs out of fuel. -/
def walk : Nat → Option Nat → Option (List Nat)
  | 0, _ => none
  | _ + 1, none => some []
  | fuel + 1, some slot =>
      if stops slot then some []
      else (walk fuel (next slot)).map (slot :: ·)

variable {next stops}

/-- A finished walk has visited no stopper. -/
theorem walk_live {fuel : Nat} {start : Option Nat} {visited : List Nat}
    (finished : walk next stops fuel start = some visited) {slot : Nat}
    (member : slot ∈ visited) : stops slot = false := by
  induction fuel generalizing start visited with
  | zero => cases finished
  | succ fuel ih =>
      cases start with
      | none =>
          cases finished
          cases member
      | some first =>
          rw [walk] at finished
          cases stopped : stops first with
          | true =>
              rw [stopped, if_pos rfl] at finished
              cases finished
              cases member
          | false =>
              rw [stopped, if_neg Bool.false_ne_true,
                Option.map_eq_some_iff] at finished
              rcases finished with ⟨rest, later, rfl⟩
              rcases List.mem_cons.mp member with rfl | inRest
              · exact stopped
              · exact ih later inRest

/-- More fuel does not change a finished walk. -/
theorem walk_mono {fuel more : Nat} {start : Option Nat}
    {visited : List Nat}
    (finished : walk next stops fuel start = some visited)
    (enough : fuel ≤ more) : walk next stops more start = some visited := by
  induction fuel generalizing more start visited with
  | zero => cases finished
  | succ fuel ih =>
      rcases Nat.exists_eq_add_of_le' enough with ⟨extra, rfl⟩
      cases start with
      | none => exact finished
      | some first =>
          rw [walk] at finished
          rw [← Nat.add_assoc, walk]
          cases stopped : stops first with
          | true =>
              rw [stopped] at finished
              exact finished
          | false =>
              rw [stopped, if_neg Bool.false_ne_true,
                Option.map_eq_some_iff] at finished
              rcases finished with ⟨rest, later, rfl⟩
              rw [if_neg Bool.false_ne_true,
                ih later (Nat.le_add_left fuel extra)]
              rfl

/-- A block of live, consecutively linked slots with nothing behind it. -/
structure Block (next : Nat → Option Nat) (stops : Nat → Bool)
    (start count : Nat) : Prop where
  live : ∀ i, i < count → stops (start + i) = false
  linked : ∀ i, i + 1 < count → next (start + i) = some (start + i + 1)
  ended : ∀ i, i + 1 = count → next (start + i) = none

theorem Block.tail {start count : Nat}
    (block : Block next stops start (count + 1)) :
    Block next stops (start + 1) count where
  live := fun i below => by
    rw [Nat.add_right_comm]
    exact block.live (i + 1) (by omega)
  linked := fun i below => by
    rw [Nat.add_right_comm]
    exact block.linked (i + 1) (by omega)
  ended := fun i last => by
    rw [Nat.add_right_comm]
    exact block.ended (i + 1) (by omega)

/-- A walk goes through a block in order. -/
theorem walk_block {start count : Nat}
    (block : Block next stops start (count + 1)) :
    walk next stops (count + 2) (some start) =
      some (List.range' start (count + 1)) := by
  induction count generalizing start with
  | zero =>
      rw [walk, show stops start = false from block.live 0 Nat.one_pos,
        if_neg Bool.false_ne_true,
        show next start = none from block.ended 0 rfl]
      rfl
  | succ count ih =>
      rw [walk, show stops start = false from
        block.live 0 (Nat.succ_pos _), if_neg Bool.false_ne_true,
        show next start = some (start + 1) from block.linked 0 (by omega),
        ih block.tail]
      rfl

end AoclDlp.Foundations.LinkedArray
