import Mathlib.Data.List.Basic
import Mathlib.Data.List.Infix

/-!
# First occurrence of a pattern in a list

`find pat s` is the position of the first occurrence of `pat` in `s`, `none` if there is none.

* `find_eq_some_iff` — the occurrence is at that position, and no earlier one starts before it.
* `find_eq_none_iff_absent` — nothing is found exactly when the pattern does not occur.
* `find_append` — an occurrence found in a prefix stays the first one when the list grows, so
  an incremental reader may search the part it has.
* `find_skip` — positions at which the pattern does not start can be stepped over.
-/

namespace Search

variable {α : Type*} [DecidableEq α]

/-- Position of the first occurrence of `pat`. -/
def find (pat : List α) : List α → Option ℕ
  | [] => if pat.isPrefixOf [] then some 0 else none
  | a :: s => if pat.isPrefixOf (a :: s) then some 0 else (find pat s).map (· + 1)

/-- Position of the first occurrence of `pat` at or after `start`. -/
def findFrom (pat s : List α) (start : ℕ) : Option ℕ := (find pat (s.drop start)).map (· + start)

theorem find_of_start {pat s : List α} (h : pat <+: s) : find pat s = some 0 := by
  cases s with
  | nil => rw [find, if_pos (List.isPrefixOf_iff_prefix.2 h)]
  | cons a s => rw [find, if_pos (List.isPrefixOf_iff_prefix.2 h)]

theorem find_cons_of_not_start {pat : List α} {a : α} {s : List α} (h : ¬ pat <+: a :: s) :
    find pat (a :: s) = (find pat s).map (· + 1) := by
  rw [find, if_neg fun h' => h (List.isPrefixOf_iff_prefix.1 h')]

/-- The pattern starts at the position found, and at no earlier one. -/
theorem find_eq_some_iff {pat s : List α} {i : ℕ} :
    find pat s = some i ↔ i ≤ s.length ∧ pat <+: s.drop i ∧ ∀ j < i, ¬ pat <+: s.drop j := by
  induction s generalizing i with
  | nil =>
    by_cases h : pat <+: []
    · rw [find_of_start h]
      constructor
      · rintro ⟨⟩
        exact ⟨le_rfl, h, fun j hj => absurd hj (Nat.not_lt_zero j)⟩
      · rintro ⟨hi, -, -⟩
        rw [Nat.le_zero.1 hi]
    · rw [find, if_neg fun h' => h (List.isPrefixOf_iff_prefix.1 h')]
      simp only [reduceCtorEq, List.drop_nil, false_iff, not_and]
      exact fun _ hp => absurd hp h
  | cons a s ih =>
    by_cases h : pat <+: a :: s
    · rw [find_of_start h]
      constructor
      · rintro ⟨⟩
        exact ⟨Nat.zero_le _, h, fun j hj => absurd hj (Nat.not_lt_zero j)⟩
      · rintro ⟨-, -, hfirst⟩
        cases i with
        | zero => rfl
        | succ i => exact absurd h (hfirst 0 (Nat.succ_pos i))
    · rw [find_cons_of_not_start h, Option.map_eq_some_iff]
      constructor
      · rintro ⟨k, hk, rfl⟩
        obtain ⟨hle, hp, hfirst⟩ := ih.1 hk
        refine ⟨Nat.succ_le_succ hle, hp, fun j hj => ?_⟩
        cases j with
        | zero => exact h
        | succ j => exact hfirst j (Nat.lt_of_succ_lt_succ hj)
      · rintro ⟨hle, hp, hfirst⟩
        cases i with
        | zero => exact absurd hp h
        | succ i =>
          exact ⟨i, ih.2 ⟨Nat.le_of_succ_le_succ hle, hp,
            fun j hj => hfirst (j + 1) (Nat.succ_lt_succ hj)⟩, rfl⟩

theorem find_eq_none_iff {pat s : List α} :
    find pat s = none ↔ ∀ j ≤ s.length, ¬ pat <+: s.drop j := by
  induction s with
  | nil =>
    by_cases h : pat <+: []
    · rw [find_of_start h]
      simpa using h
    · rw [find, if_neg fun h' => h (List.isPrefixOf_iff_prefix.1 h')]
      simpa using h
  | cons a s ih =>
    by_cases h : pat <+: a :: s
    · rw [find_of_start h]
      simp only [reduceCtorEq, false_iff, not_forall, not_not]
      exact ⟨0, Nat.zero_le _, h⟩
    · rw [find_cons_of_not_start h, Option.map_eq_none_iff, ih]
      constructor
      · intro hs j hj
        cases j with
        | zero => exact h
        | succ j => exact hs j (Nat.le_of_succ_le_succ hj)
      · exact fun hs j hj => hs (j + 1) (Nat.succ_le_succ hj)

omit [DecidableEq α] in
theorem infix_of_start {pat s : List α} {j : ℕ} (h : pat <+: s.drop j) : pat <:+: s :=
  h.isInfix.trans (List.drop_suffix j s).isInfix

omit [DecidableEq α] in
/-- A pattern that occurs starts somewhere. -/
theorem exists_start {pat s : List α} (h : pat <:+: s) : ∃ j ≤ s.length, pat <+: s.drop j := by
  obtain ⟨u, v, rfl⟩ := h
  refine ⟨u.length, by simp, ?_⟩
  rw [List.append_assoc, List.drop_left]
  exact List.prefix_append _ _

theorem find_eq_none_iff_absent {pat s : List α} : find pat s = none ↔ ¬ pat <:+: s := by
  rw [find_eq_none_iff]
  constructor
  · intro h hin
    obtain ⟨j, hj, hp⟩ := exists_start hin
    exact h j hj hp
  · exact fun h j _ hp => h (infix_of_start hp)

/-- The occurrence lies inside the list. -/
theorem find_bound {pat s : List α} {i : ℕ} (h : find pat s = some i) :
    i + pat.length ≤ s.length := by
  obtain ⟨hle, hp, -⟩ := find_eq_some_iff.1 h
  have := hp.length_le
  rw [List.length_drop] at this
  omega

omit [DecidableEq α] in
theorem prefix_drop_append {pat s t : List α} {i : ℕ} (h : i + pat.length ≤ s.length) :
    pat <+: (s ++ t).drop i ↔ pat <+: s.drop i := by
  rw [List.drop_append_of_le_length (by omega)]
  constructor
  · intro hp
    refine List.prefix_of_prefix_length_le hp (List.prefix_append _ _) ?_
    rw [List.length_drop]
    omega
  · exact fun hp => hp.trans (List.prefix_append _ _)

/-- **Growing the list keeps the first occurrence.** -/
theorem find_append {pat s : List α} {i : ℕ} (h : find pat s = some i) (t : List α) :
    find pat (s ++ t) = some i := by
  have hb := find_bound h
  obtain ⟨hle, hp, hfirst⟩ := find_eq_some_iff.1 h
  refine find_eq_some_iff.2 ⟨?_, (prefix_drop_append hb).2 hp, fun j hj hpj => ?_⟩
  · rw [List.length_append]
    omega
  · exact hfirst j hj ((prefix_drop_append (by omega)).1 hpj)

theorem findFrom_append {pat s : List α} {i start : ℕ} (h : findFrom pat s start = some i)
    (hstart : start ≤ s.length) (t : List α) : findFrom pat (s ++ t) start = some i := by
  obtain ⟨k, hk, rfl⟩ := Option.map_eq_some_iff.1 h
  rw [findFrom, List.drop_append_of_le_length hstart, find_append hk]
  rfl

/-- An occurrence at or after `start` is found, no later than where it is. -/
theorem findFrom_of_start {pat s : List α} {i start : ℕ} (hs : start ≤ i) (hi : i ≤ s.length)
    (h : pat <+: s.drop i) : ∃ k, findFrom pat s start = some k ∧ k ≤ i := by
  have hdrop : s.drop i = (s.drop start).drop (i - start) := by
    rw [List.drop_drop]
    congr 1
    omega
  rw [hdrop] at h
  cases hf : find pat (s.drop start) with
  | none =>
    refine absurd h (find_eq_none_iff.1 hf (i - start) ?_)
    rw [List.length_drop]
    omega
  | some k =>
    refine ⟨k + start, by rw [findFrom, hf]; rfl, ?_⟩
    by_contra hlt
    exact (find_eq_some_iff.1 hf).2.2 (i - start) (by omega) h

/-- Positions at which the pattern does not start are stepped over. -/
theorem find_skip {pat u s : List α} (h : ∀ j < u.length, ¬ pat <+: (u ++ s).drop j) :
    find pat (u ++ s) = (find pat s).map (· + u.length) := by
  induction u with
  | nil => simp
  | cons a u ih =>
    have h0 : ¬ pat <+: a :: (u ++ s) := h 0 (Nat.succ_pos _)
    rw [List.cons_append, find_cons_of_not_start h0,
      ih fun j hj => h (j + 1) (Nat.succ_lt_succ hj), Option.map_map]
    rfl

omit [DecidableEq α] in
/-- The pattern does not start where its first letter is absent. -/
theorem not_prefix_of_notMem {c : α} {pat u s : List α} (h : c ∉ u) {j : ℕ} (hj : j < u.length) :
    ¬ (c :: pat) <+: (u ++ s).drop j := by
  intro hp
  rw [List.drop_append_of_le_length (le_of_lt hj), List.drop_eq_getElem_cons hj,
    List.cons_append, List.cons_prefix_cons] at hp
  exact h (hp.1 ▸ List.getElem_mem hj)

/-- A text without the pattern's first letter is stepped over. -/
theorem find_skip_of_notMem {c : α} {pat u s : List α} (h : c ∉ u) :
    find (c :: pat) (u ++ s) = (find (c :: pat) s).map (· + u.length) :=
  find_skip fun _ hj => not_prefix_of_notMem h hj

theorem find_after_notMem {c : α} {pat u s : List α} (h : c ∉ u) :
    find (c :: pat) (u ++ (c :: pat ++ s)) = some u.length := by
  rw [find_skip_of_notMem h, find_of_start (List.prefix_append _ _)]
  simp

end Search
