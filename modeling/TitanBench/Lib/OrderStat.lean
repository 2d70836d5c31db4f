import Mathlib.Data.List.Sort

/-!
# Order statistics of a list

The `k`-th smallest entry of a list, counted from one and with repetitions, over any linear order.

* `le_countP_le_iff` — the `k`-th smallest entry is the least bound with `k` entries up to it.
* `IsKth.map` — a monotone map carries the `k`-th smallest entry along, so a list may be
  quantised before or after the entry is picked.
* `kthSmallest_eq_some_iff` — it is the entry at position `k - 1` of the sorted list.
-/

namespace OrderStat

variable {α β : Type*} [LinearOrder α] [LinearOrder β]

/-- `x` is the `k`-th smallest entry of `l`: fewer than `k` entries are below it, and at least `k`
are not above it. -/
structure IsKth (l : List α) (k : ℕ) (x : α) : Prop where
  below : l.countP (· < x) < k
  upTo : k ≤ l.countP (· ≤ x)

variable {l : List α} {k : ℕ} {x y : α}

theorem countP_le_mono (h : x ≤ y) : l.countP (· ≤ x) ≤ l.countP (· ≤ y) := by
  apply List.countP_mono_left
  intro z hz hzx
  simp only [decide_eq_true_eq] at hzx ⊢
  exact hzx.trans h

/-- What is below a larger bound is at most what is up to the smaller one or strictly between. -/
theorem countP_le_le_countP_lt (h : x < y) : l.countP (· ≤ x) ≤ l.countP (· < y) := by
  apply List.countP_mono_left
  intro z hz hzx
  simp only [decide_eq_true_eq] at hzx ⊢
  exact hzx.trans_lt h

/-- At least `k` entries are up to `y` exactly when the `k`-th smallest one is. -/
theorem le_countP_le_iff (h : IsKth l k x) : k ≤ l.countP (· ≤ y) ↔ x ≤ y := by
  constructor
  · intro hk
    by_contra hlt
    have hfew := countP_le_le_countP_lt (l := l) (not_le.mp hlt)
    exact absurd (hk.trans hfew) (not_le.mpr h.below)
  · intro hle
    exact h.upTo.trans (countP_le_mono hle)

theorem IsKth.unique (hx : IsKth l k x) (hy : IsKth l k y) : x = y :=
  le_antisymm ((le_countP_le_iff hx).mp hy.upTo) ((le_countP_le_iff hy).mp hx.upTo)

/-- A larger rank has a larger entry. -/
theorem IsKth.mono {j : ℕ} (hx : IsKth l j x) (hy : IsKth l k y) (h : j ≤ k) : x ≤ y :=
  (le_countP_le_iff hx).mp (h.trans hy.upTo)

theorem IsKth.mem (h : IsKth l k x) : x ∈ l := by
  by_contra hx
  have hsame : l.countP (· ≤ x) = l.countP (· < x) := by
    apply List.countP_congr
    intro z hz
    have hne : z ≠ x := fun heq => hx (heq ▸ hz)
    simp only [decide_eq_true_eq]
    exact ⟨fun hle => lt_of_le_of_ne hle hne, le_of_lt⟩
  have hlt := h.below
  rw [← hsame] at hlt
  exact absurd h.upTo (not_le.mpr hlt)

/-- Picking commutes with a monotone map. -/
theorem IsKth.map {f : α → β} (hf : Monotone f) (h : IsKth l k x) : IsKth (l.map f) k (f x) := by
  constructor
  · rw [List.countP_map]
    refine lt_of_le_of_lt (List.countP_mono_left fun z _ hz => ?_) h.below
    simp only [Function.comp_apply, decide_eq_true_eq] at hz ⊢
    exact hf.reflect_lt hz
  · rw [List.countP_map]
    refine h.upTo.trans (List.countP_mono_left fun z _ hz => ?_)
    simp only [Function.comp_apply, decide_eq_true_eq] at hz ⊢
    exact hf hz

/-! ## In the sorted list -/

/-- The entry at position `k - 1` of the sorted list. -/
def kthSmallest (l : List α) (k : ℕ) : Option α := (l.insertionSort (· ≤ ·))[k - 1]?

/-- An entry with nothing above it in front and nothing below it behind. -/
theorem isKth_of_split {before behind : List α} (hbefore : ∀ z ∈ before, z ≤ x)
    (hbehind : ∀ z ∈ behind, x ≤ z) : IsKth (before ++ x :: behind) (before.length + 1) x := by
  constructor
  · have hnone : (x :: behind).countP (· < x) = 0 := by
      rw [List.countP_eq_zero]
      intro z hz
      rcases List.mem_cons.mp hz with rfl | hz
      · simp
      · simpa using hbehind z hz
    rw [List.countP_append, hnone]
    exact Nat.lt_succ_of_le List.countP_le_length
  · have hall : before.countP (· ≤ x) = before.length := by
      rw [List.countP_eq_length]
      intro z hz
      simpa using hbefore z hz
    rw [List.countP_append, hall, List.countP_cons_of_pos (by simp)]
    omega

theorem isKth_of_pairwise {s : List α} (hs : s.Pairwise (· ≤ ·)) {i : ℕ} (h : s[i]? = some x) :
    IsKth s (i + 1) x := by
  obtain ⟨hi, hx⟩ := List.getElem?_eq_some_iff.mp h
  have hsplit : s.take i ++ x :: s.drop (i + 1) = s := by
    rw [← hx, ← List.drop_eq_getElem_cons, List.take_append_drop]
  have hsorted := hs
  rw [← hsplit, List.pairwise_append] at hsorted
  obtain ⟨-, hbehind, hbefore⟩ := hsorted
  have hkth := isKth_of_split (fun z hz => hbefore z hz x List.mem_cons_self)
    fun z hz => List.rel_of_pairwise_cons hbehind hz
  rwa [hsplit, List.length_take_of_le hi.le] at hkth

theorem IsKth.of_perm {s : List α} (hp : s.Perm l) (h : IsKth s k x) : IsKth l k x := by
  obtain ⟨hbelow, hupTo⟩ := h
  rw [hp.countP_eq] at hbelow hupTo
  exact ⟨hbelow, hupTo⟩

/-- There is a `k`-th smallest entry for every rank up to the length. -/
theorem exists_isKth (hk : 0 < k) (hle : k ≤ l.length) :
    ∃ x, kthSmallest l k = some x ∧ IsKth l k x := by
  have hlen : k - 1 < (l.insertionSort (· ≤ ·)).length := by
    rw [List.length_insertionSort]
    omega
  have hget := List.getElem?_eq_getElem hlen
  refine ⟨_, hget, ?_⟩
  have hkth := isKth_of_pairwise (List.pairwise_insertionSort (· ≤ ·) l) hget
  rw [Nat.sub_add_cancel hk] at hkth
  exact hkth.of_perm (List.perm_insertionSort (· ≤ ·) l)

theorem IsKth.rank_pos (h : IsKth l k x) : 0 < k := Nat.zero_lt_of_lt h.below

theorem IsKth.rank_le (h : IsKth l k x) : k ≤ l.length := h.upTo.trans List.countP_le_length

theorem kthSmallest_eq_some_iff (hk : 0 < k) : kthSmallest l k = some x ↔ IsKth l k x := by
  constructor
  · intro h
    have hlt : k - 1 < (l.insertionSort (· ≤ ·)).length := (List.getElem?_eq_some_iff.mp h).1
    rw [List.length_insertionSort] at hlt
    obtain ⟨y, hy, hkth⟩ := exists_isKth hk (show k ≤ l.length by omega)
    rw [h, Option.some.injEq] at hy
    exact hy ▸ hkth
  · intro h
    obtain ⟨y, hy, hkth⟩ := exists_isKth h.rank_pos h.rank_le
    rw [hy, hkth.unique h]

end OrderStat
