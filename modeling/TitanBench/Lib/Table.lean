import Mathlib.Algebra.BigOperators.Group.List.Basic
import Mathlib.Algebra.Order.Ring.Int
import Mathlib.Data.List.AList

/-!
# Finite tables

A table is an association list without duplicate keys. What is added to Mathlib's: facts about
all of a table's rows, and the total of a weight over them.

* `Table.All` — every row satisfies a predicate; kept by `erase`, and by `insert` of a good row.
* `Table.total` — the sum of a weight over the rows; `total_insert` and `total_erase` say what the
  two operations do to it.
* `Table.visit` — the keys in the order a hash table happens to iterate in.
-/

/-- A table of rows `ν` under keys `κ`. -/
abbrev Table (κ ν : Type*) := AList fun _ : κ => ν

namespace Table

variable {κ ν : Type*} [DecidableEq κ]

/-! ## Rows -/

/-- Every row of the table satisfies `P`. -/
def All (P : κ → ν → Prop) (t : Table κ ν) : Prop := ∀ k v, t.lookup k = some v → P k v

theorem all_empty (P : κ → ν → Prop) : All P (∅ : Table κ ν) := by
  intro k v h
  simp at h

theorem All.erase {P : κ → ν → Prop} {t : Table κ ν} (h : All P t) (k : κ) :
    All P (t.erase k) := by
  intro k' v hv
  by_cases hk : k' = k
  · subst hk
    simp at hv
  · rw [AList.lookup_erase_ne hk] at hv
    exact h k' v hv

theorem All.insert {P : κ → ν → Prop} {t : Table κ ν} (h : All P t) {k : κ} {v : ν}
    (hv : P k v) : All P (t.insert k v) := by
  intro k' v' h'
  by_cases hk : k' = k
  · subst hk
    rw [AList.lookup_insert] at h'
    cases h'
    exact hv
  · rw [AList.lookup_insert_ne hk] at h'
    exact h k' v' h'

/-- A row that is entered and taken out again leaves nothing behind. -/
theorem erase_insert {t : Table κ ν} {k : κ} (h : k ∉ t) (v : ν) :
    (AList.insert k v t).erase k = t := by
  apply AList.ext
  show ((AList.insert k v t).entries).kerase k = t.entries
  rw [AList.entries_insert, List.kerase_of_notMem_keys h]
  exact List.kerase_cons_eq rfl

/-- The rows, the one under `k` first. -/
theorem perm_erase {t : Table κ ν} {k : κ} {v : ν} (h : t.lookup k = some v) :
    t.entries.Perm (⟨k, v⟩ :: (t.erase k).entries) := by
  have hmem : k ∈ t.keys := AList.lookup_isSome.mp (by rw [h]; rfl)
  obtain ⟨u, before, after, -, hl, herase⟩ := List.exists_of_kerase hmem
  have hu : t.lookup k = some u := by
    refine AList.mem_lookup_iff.mpr ?_
    rw [hl]
    exact List.mem_append_right _ List.mem_cons_self
  have huv : v = u := Option.some.inj (h.symm.trans hu)
  show t.entries.Perm (⟨k, v⟩ :: t.entries.kerase k)
  rw [herase, huv, hl]
  exact List.perm_middle

/-! ## Number of rows -/

theorem length_insert (t : Table κ ν) (k : κ) (v : ν) :
    (AList.insert k v t).keys.length = (t.erase k).keys.length + 1 := by
  rw [AList.keys_insert, AList.keys_erase, List.length_cons]

theorem length_erase_le (t : Table κ ν) (k : κ) : (t.erase k).keys.length ≤ t.keys.length := by
  rw [AList.keys_erase]
  exact List.length_erase_le

theorem length_erase {t : Table κ ν} {k : κ} {v : ν} (h : t.lookup k = some v) :
    (t.erase k).keys.length + 1 = t.keys.length := by
  have hmem : k ∈ t.keys := AList.lookup_isSome.mp (by rw [h]; rfl)
  rw [AList.keys_erase, List.length_erase_of_mem hmem]
  exact Nat.sub_add_cancel (List.length_pos_of_mem hmem)

/-! ## Totals -/

/-- The sum of a weight over the rows. -/
def total (w : κ → ν → ℕ) (t : Table κ ν) : ℕ := (t.entries.map fun e => w e.1 e.2).sum

/-- The weight of the row under `k`, `0` when there is none. -/
def weight (w : κ → ν → ℕ) (t : Table κ ν) (k : κ) : ℕ := ((t.lookup k).map (w k)).getD 0

theorem weight_eq {w : κ → ν → ℕ} {t : Table κ ν} {k : κ} {v : ν} (h : t.lookup k = some v) :
    weight w t k = w k v := by
  simp [weight, h]

theorem weight_none {w : κ → ν → ℕ} {t : Table κ ν} {k : κ} (h : t.lookup k = none) :
    weight w t k = 0 := by
  simp [weight, h]

theorem sum_kerase (w : κ → ν → ℕ) (k : κ) :
    ∀ l : List (Σ _ : κ, ν), ((l.kerase k).map fun e => w e.1 e.2).sum
      + ((l.dlookup k).map (w k)).getD 0 = (l.map fun e => w e.1 e.2).sum := by
  intro l
  induction l with
  | nil => simp
  | cons e l ih =>
    by_cases hk : k = e.1
    · subst hk
      obtain ⟨k, v⟩ := e
      simp [add_comm]
    · rw [List.kerase_cons_ne hk, List.dlookup_cons_ne _ _ hk]
      simp only [List.map_cons, List.sum_cons]
      omega

theorem total_erase (w : κ → ν → ℕ) (t : Table κ ν) (k : κ) :
    total w (t.erase k) + weight w t k = total w t :=
  sum_kerase w k t.entries

theorem total_insert (w : κ → ν → ℕ) (t : Table κ ν) (k : κ) (v : ν) :
    total w (t.insert k v) + weight w t k = total w t + w k v := by
  have h : total w (t.insert k v) = w k v + total w (t.erase k) := by
    show ((t.insert k v).entries.map _).sum = w k v + ((t.entries.kerase k).map _).sum
    rw [AList.entries_insert, List.map_cons, List.sum_cons]
  rw [h, ← total_erase w t k]
  omega

theorem total_insert_le (w : κ → ν → ℕ) (t : Table κ ν) (k : κ) (v : ν) :
    total w (t.insert k v) ≤ total w t + w k v := by
  have h := total_insert w t k v
  omega

/-! ## Iteration -/

/-- The keys of the table in the order `order` if that is an order of them, else in the table's
own: whatever `order` is, each key is visited exactly once. -/
def visit (order : List κ) (t : Table κ ν) : List κ :=
  if order.isPerm t.keys then order else t.keys

theorem visit_perm (order : List κ) (t : Table κ ν) : (t.visit order).Perm t.keys := by
  unfold visit
  split_ifs with h
  · exact List.isPerm_iff.mp h
  · exact List.Perm.refl _

end Table
