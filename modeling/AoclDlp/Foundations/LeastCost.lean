import Mathlib.Data.List.Basic
import Mathlib.Order.Basic

/-!
# The earliest cheapest item of a list

A search that keeps an incumbent and lets only a strictly cheaper item
displace it ends with the first of the cheapest items.
-/

namespace AoclDlp.Foundations.LeastCost

variable {Item Cost : Type} [Preorder Cost] {admits : Item → Prop}
variable {cost : Item → Cost} {items : List Item} {best item : Item}

/-- `best` is the first among the admitted items of least cost. -/
structure EarliestLeast (admits : Item → Prop) (cost : Item → Cost)
    (items : List Item) (best : Item) : Prop where
  admitted : admits best
  split : ∃ before after, items = before ++ best :: after ∧
    (∀ other ∈ before, admits other → cost best < cost other) ∧
    ∀ other ∈ after, admits other → cost best ≤ cost other

theorem EarliestLeast.first (refused : ∀ other ∈ items, ¬ admits other)
    (admitted : admits item) :
    EarliestLeast admits cost (items ++ [item]) item where
  admitted := admitted
  split := ⟨items, [], rfl,
    fun other earlier admits => absurd admits (refused other earlier),
    fun _ later => absurd later List.not_mem_nil⟩

/-- An item that is refused or not cheaper leaves the incumbent. -/
theorem EarliestLeast.keep (least : EarliestLeast admits cost items best)
    (dearer : admits item → cost best ≤ cost item) :
    EarliestLeast admits cost (items ++ [item]) best := by
  rcases least.split with ⟨before, after, rfl, strict, weak⟩
  refine ⟨least.admitted, before, after ++ [item], ?_, strict, ?_⟩
  · rw [List.append_assoc, List.cons_append]
  · intro other later admits
    rcases List.mem_append.mp later with inside | last
    · exact weak other inside admits
    · rw [List.mem_singleton.mp last] at admits ⊢
      exact dearer admits

/-- A strictly cheaper item displaces the incumbent. -/
theorem EarliestLeast.displace
    (least : EarliestLeast admits cost items best) (admitted : admits item)
    (cheaper : cost item < cost best) :
    EarliestLeast admits cost (items ++ [item]) item := by
  refine ⟨admitted, items, [], rfl, ?_,
    fun _ later => absurd later List.not_mem_nil⟩
  intro other earlier admits
  rcases least.split with ⟨before, after, rfl, strict, weak⟩
  rcases List.mem_append.mp earlier with inside | rest
  · exact cheaper.trans (strict other inside admits)
  · rcases List.mem_cons.mp rest with same | inside
    · rw [same]
      exact cheaper
    · exact cheaper.trans_le (weak other inside admits)

end AoclDlp.Foundations.LeastCost
