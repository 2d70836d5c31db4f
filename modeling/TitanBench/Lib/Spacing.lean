import Mathlib.Algebra.Order.Ring.Int
import Mathlib.Data.List.Pairwise
import Mathlib.Order.Lattice

/-!
# Spaced slots

Requests are served in order, each with the time it is made at. A request gets the first slot that
is not before its own time and not before the slot that is still free, and the next free slot is a
fixed gap later.

* `slots` — the slots of a list of requests; `next` — the slot free after them.
* `slots_pairwise` — the slots are a gap apart, in the order of the requests.
* `count_window` — how many slots fit in a window of time.
-/

namespace Spacing

section Slots

variable {M : Type*} [Add M] [LinearOrder M]

/-- The slot that is free after the requests. -/
def next (gap : M) (free : M) : List M → M
  | [] => free
  | now :: nows => next gap (max free now + gap) nows

/-- The slots the requests get. -/
def slots (gap : M) (free : M) : List M → List M
  | [] => []
  | now :: nows => max free now :: slots gap (max free now + gap) nows

variable (gap free now : M) (nows : List M)

@[simp] theorem next_nil : next gap free [] = free := rfl

@[simp] theorem next_cons :
    next gap free (now :: nows) = next gap (max free now + gap) nows := rfl

@[simp] theorem slots_nil : slots gap free [] = [] := rfl

@[simp] theorem slots_cons :
    slots gap free (now :: nows) = max free now :: slots gap (max free now + gap) nows := rfl

theorem next_append (nows' : List M) :
    next gap free (nows ++ nows') = next gap (next gap free nows) nows' := by
  induction nows generalizing free with
  | nil => rfl
  | cons now nows ih => simp [ih]

theorem slots_append (nows' : List M) :
    slots gap free (nows ++ nows') =
      slots gap free nows ++ slots gap (next gap free nows) nows' := by
  induction nows generalizing free with
  | nil => rfl
  | cons now nows ih => simp [ih]

@[simp] theorem slots_length : (slots gap free nows).length = nows.length := by
  induction nows generalizing free with
  | nil => rfl
  | cons now nows ih => simp [ih]

/-- The first slot. -/
theorem slots_head {s : M} (h : (slots gap free nows)[0]? = some s) :
    ∃ now, nows[0]? = some now ∧ s = max free now := by
  cases nows with
  | nil => simp at h
  | cons now nows => exact ⟨now, rfl, by simpa using h.symm⟩

/-- Each slot after the first, from the one before it. -/
theorem slots_succ {i : ℕ} {s s' : M} (h : (slots gap free nows)[i]? = some s)
    (h' : (slots gap free nows)[i + 1]? = some s') :
    ∃ now, nows[i + 1]? = some now ∧ s' = max (s + gap) now := by
  induction nows generalizing free i with
  | nil => simp at h
  | cons now nows ih =>
    cases i with
    | zero =>
      obtain rfl : max free now = s := by simpa using h
      exact slots_head _ _ _ (by simpa using h')
    | succ i => exact ih _ (by simpa using h) (by simpa using h')

/-- No slot is before the time of its request. -/
theorem now_le {gap free : M} {nows : List M} {i : ℕ} {now s : M} (hn : nows[i]? = some now)
    (hs : (slots gap free nows)[i]? = some s) : now ≤ s := by
  induction nows generalizing free i with
  | nil => simp at hn
  | cons now' nows ih =>
    cases i with
    | zero =>
      obtain rfl : now' = now := by simpa using hn
      obtain rfl : max free now' = s := by simpa using hs
      exact le_max_right _ _
    | succ i => exact ih (by simpa using hn) (by simpa using hs)

end Slots

section Ordered

variable {M : Type*} [AddCommMonoid M] [LinearOrder M] [IsOrderedAddMonoid M]
  {gap free : M} {nows : List M}

/-- No slot is before the one that was free at first. -/
theorem free_le (hgap : 0 ≤ gap) {s : M} (h : s ∈ slots gap free nows) : free ≤ s := by
  induction nows generalizing free with
  | nil => simp at h
  | cons now nows ih =>
    rcases List.mem_cons.mp h with rfl | h
    · exact le_max_left _ _
    · exact ((le_max_left _ _).trans (le_add_of_nonneg_right hgap)).trans (ih h)

/-- The slots are a gap apart. -/
theorem slots_pairwise (hgap : 0 ≤ gap) :
    (slots gap free nows).Pairwise fun s s' => s + gap ≤ s' := by
  induction nows generalizing free with
  | nil => exact List.Pairwise.nil
  | cons now nows ih =>
    refine List.Pairwise.cons ?_ ih
    intro s hs
    exact free_le hgap hs

end Ordered

/-! ## Windows -/

section Windows

variable {gap lo hi : ℤ} {l : List ℤ}

/-- Numbers a gap apart that lie in a window: the window is as long as the gaps between them. -/
theorem gaps_le (hl : l.Pairwise fun s s' => s + gap ≤ s') (hlo : ∀ s ∈ l, lo ≤ s)
    (hhi : ∀ s ∈ l, s ≤ hi) (hne : l ≠ []) : ((l.length : ℤ) - 1) * gap ≤ hi - lo := by
  induction l generalizing lo with
  | nil => exact absurd rfl hne
  | cons s l ih =>
    have hs : lo ≤ s := hlo s List.mem_cons_self
    by_cases hnil : l = []
    · subst hnil
      have := hhi s List.mem_cons_self
      simp only [List.length_singleton, Nat.cast_one, sub_self, zero_mul]
      omega
    · have hrest : ((l.length : ℤ) - 1) * gap ≤ hi - (s + gap) :=
        ih hl.of_cons (fun x hx => List.rel_of_pairwise_cons hl hx)
          (fun x hx => hhi x (List.mem_cons_of_mem _ hx)) hnil
      have hlen : ((s :: l).length : ℤ) - 1 = (l.length : ℤ) - 1 + 1 := by
        simp only [List.length_cons]
        omega
      rw [hlen, add_mul, one_mul]
      omega

/-- **A window holds at most one number more than its length has gaps.** -/
theorem count_window (lo hi : ℤ) (hgap : 0 < gap) (hl : l.Pairwise fun s s' => s + gap ≤ s')
    (hlen : lo ≤ hi) : (l.countP fun s => decide (lo ≤ s ∧ s ≤ hi) : ℤ) ≤ (hi - lo) / gap + 1 := by
  rw [List.countP_eq_length_filter]
  set inside := l.filter fun s => decide (lo ≤ s ∧ s ≤ hi)
  have hmem : ∀ s ∈ inside, lo ≤ s ∧ s ≤ hi := by
    intro s hs
    exact of_decide_eq_true (List.mem_filter.mp hs).2
  by_cases hnil : inside = []
  · have hnonneg : 0 ≤ (hi - lo) / gap := Int.ediv_nonneg (by omega) hgap.le
    rw [hnil]
    simp only [List.length_nil, Nat.cast_zero]
    omega
  · have hgaps : ((inside.length : ℤ) - 1) * gap ≤ hi - lo :=
      gaps_le (hl.sublist List.filter_sublist) (fun s hs => (hmem s hs).1)
        (fun s hs => (hmem s hs).2) hnil
    have hdiv := (Int.le_ediv_iff_mul_le hgap).mpr hgaps
    omega

end Windows

end Spacing
