import Mathlib.Algebra.BigOperators.Group.List.Basic
import Mathlib.Algebra.Order.BigOperators.Group.List
import Mathlib.Algebra.Order.Sub.Defs

/-!
# Budgets

Entries are booked one after the other. Each spends something of what is in hand and earns
something, in this order.

* `need` — what has to be in hand so that no entry overdraws it and `rest` is left in the end.
* `need_append` — the budget of two lists of entries, one after the other.
* `need_of_spends_nothing` — without spending, the earnings count against the rest.
-/

namespace Budget

variable {α M : Type*} [AddCommMonoid M] [Sub M]

/-- What has to be in hand before the entries are booked. -/
def need (spends earns : α → M) (rest : M) : List α → M
  | [] => rest
  | a :: entries => spends a + (need spends earns rest entries - earns a)

variable (spends earns : α → M) (rest : M)

@[simp] theorem need_nil : need spends earns rest [] = rest := rfl

theorem need_cons (a : α) (entries : List α) :
    need spends earns rest (a :: entries) =
      spends a + (need spends earns rest entries - earns a) := rfl

theorem need_append (entries entries' : List α) :
    need spends earns rest (entries ++ entries') =
      need spends earns (need spends earns rest entries') entries := by
  induction entries with
  | nil => rfl
  | cons a entries ih => rw [List.cons_append, need_cons, need_cons, ih]

section Ordered

variable [PartialOrder M] [OrderedSub M]

/-- Booking one entry. -/
theorem spends_add_need_le [AddLeftMono M] (a : α) (entries : List α) :
    spends a + need spends earns rest entries ≤
      need spends earns rest (a :: entries) + earns a := by
  rw [need_cons, add_assoc]
  exact add_le_add_right le_tsub_add _

theorem need_of_spends_nothing [AddLeftMono M] [CanonicallyOrderedAdd M] {entries : List α}
    (h : ∀ a ∈ entries, spends a = 0) :
    need spends earns rest entries = rest - (entries.map earns).sum := by
  induction entries with
  | nil => rw [need_nil, List.map_nil, List.sum_nil, tsub_zero]
  | cons a entries ih =>
    rw [need_cons, h a List.mem_cons_self, zero_add,
      ih fun b hb => h b (List.mem_cons_of_mem _ hb), List.map_cons, List.sum_cons, tsub_tsub,
      add_comm]

end Ordered

end Budget
