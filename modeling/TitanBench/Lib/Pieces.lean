import Mathlib.Data.List.Infix
import TitanBench.Lib.Search

/-!
# Cutting a list at a separator

`pieces pat s` are the parts of `s` between the occurrences of the separator `pat`, which are found
from the left and do not overlap.

A separator is **unbordered** if it does not overlap itself. A list is then a text without the
separator, or such a text, the separator and a rest (`pieces_induction`), and the pieces follow
these two cases (`pieces_of_absent`, `pieces_first`).

* `pieces_append_sep` — what is before a separator and what is behind it are cut independently.
* `pieces_prepend`, `pieces_append` — text that no separator reaches into changes one piece.
* `double_infix_iff` — two separators in a row are an empty piece in between.
-/

namespace Search

variable {α : Type*} [DecidableEq α]

/-- The pieces behind the first `k` letters, which belong to a separator. -/
def piecesFrom (pat : List α) : ℕ → List α → List (List α)
  | _, [] => [[]]
  | k + 1, _ :: s => piecesFrom pat k s
  | 0, a :: s =>
    if pat.isPrefixOf (a :: s) then [] :: piecesFrom pat (pat.length - 1) s
    else (piecesFrom pat 0 s).modifyHead (a :: ·)

/-- The parts of the list between the separators. -/
def pieces (pat s : List α) : List (List α) := piecesFrom pat 0 s

variable {pat s t u : List α}

@[simp] theorem pieces_nil : pieces pat [] = [[]] := rfl

theorem piecesFrom_ne_nil (pat : List α) (k : ℕ) (s : List α) : piecesFrom pat k s ≠ [] := by
  induction s generalizing k with
  | nil => simp [piecesFrom]
  | cons a s ih =>
    cases k with
    | succ k => exact ih k
    | zero =>
      unfold piecesFrom
      split_ifs
      · simp
      · simpa using ih 0

theorem pieces_ne_nil (pat s : List α) : pieces pat s ≠ [] := piecesFrom_ne_nil pat 0 s

theorem pieces_cons_of_not_start {a : α} (h : ¬ pat <+: a :: s) :
    pieces pat (a :: s) = (pieces pat s).modifyHead (a :: ·) := by
  unfold pieces
  rw [piecesFrom, if_neg fun h' => h (List.isPrefixOf_iff_prefix.mp h')]

theorem piecesFrom_skip (t s : List α) : piecesFrom pat t.length (t ++ s) = pieces pat s := by
  induction t with
  | nil => rfl
  | cons a t ih => exact ih

theorem pieces_start (hpat : pat ≠ []) (s : List α) :
    pieces pat (pat ++ s) = [] :: pieces pat s := by
  cases pat with
  | nil => exact absurd rfl hpat
  | cons a t =>
    have hstart : (a :: t).isPrefixOf (a :: (t ++ s)) = true :=
      List.isPrefixOf_iff_prefix.mpr (List.prefix_append (a :: t) s)
    rw [List.cons_append, pieces, piecesFrom, if_pos hstart]
    exact congrArg _ (piecesFrom_skip t s)

/-- Text in which no separator starts belongs to the first piece. -/
theorem pieces_modifyHead (h : ∀ j < u.length, ¬ pat <+: (u ++ s).drop j) :
    pieces pat (u ++ s) = (pieces pat s).modifyHead (u ++ ·) := by
  induction u with
  | nil =>
    cases hp : pieces pat s with
    | nil => exact absurd hp (pieces_ne_nil pat s)
    | cons p ps => simp [hp]
  | cons a u ih =>
    have h0 : ¬ pat <+: a :: (u ++ s) := h 0 (Nat.succ_pos _)
    rw [List.cons_append, pieces_cons_of_not_start h0,
      ih fun j hj => h (j + 1) (Nat.succ_lt_succ hj)]
    cases pieces pat s with
    | nil => rfl
    | cons p ps => rfl

theorem pieces_of_absent (h : ¬ pat <:+: s) : pieces pat s = [s] := by
  have hmodify := @pieces_modifyHead _ _ pat [] s fun j _ hp => by
    rw [List.append_nil] at hp
    exact h (infix_of_start hp)
  simpa using hmodify

/-! ## Separators that do not overlap themselves -/

/-- No proper end of the pattern is a beginning of it. -/
structure Unbordered (pat : List α) : Prop where
  ne_nil : pat ≠ []
  ends : ∀ k, 0 < k → k < pat.length → ¬ pat.drop k <+: pat

omit [DecidableEq α] in
/-- An occurrence that starts before a separator ends before it. -/
theorem Unbordered.start_before (hpat : Unbordered pat) (hu : u ≠ [])
    (h : pat <+: u ++ (pat ++ s)) : pat <+: u := by
  by_cases hlen : pat.length ≤ u.length
  · exact List.prefix_of_prefix_length_le h (List.prefix_append _ _) hlen
  · exfalso
    obtain ⟨v, rfl⟩ : u <+: pat :=
      List.prefix_of_prefix_length_le (List.prefix_append _ _) h (by omega)
    have hv : v <+: (u ++ v) ++ s := (List.prefix_append_right_inj u).mp h
    apply hpat.ends u.length (List.length_pos_of_ne_nil hu) (not_le.mp hlen)
    rw [List.drop_left]
    exact List.prefix_of_prefix_length_le hv (List.prefix_append _ _) (by simp)

omit [DecidableEq α] in
/-- A separator that starts inside another one starts behind it. -/
theorem Unbordered.start_behind (hpat : Unbordered pat) {k : ℕ} (hk : 0 < k)
    (h : pat <+: (pat ++ s).drop k) : pat.length ≤ k := by
  by_contra hlt
  have hlt := not_le.mp hlt
  rw [List.drop_append_of_le_length hlt.le] at h
  apply hpat.ends k hk hlt
  exact List.prefix_of_prefix_length_le (List.prefix_append _ _) h (by simp)

theorem pieces_first (hpat : Unbordered pat) (hu : ¬ pat <:+: u) (s : List α) :
    pieces pat (u ++ (pat ++ s)) = u :: pieces pat s := by
  rw [pieces_modifyHead, pieces_start hpat.ne_nil]
  · simp
  · intro j hj hp
    rw [List.drop_append_of_le_length hj.le] at hp
    have hne : u.drop j ≠ [] := by simpa using hj
    exact hu (infix_of_start (hpat.start_before hne hp))

omit [DecidableEq α] in
/-- **Induction on the separators of a list.** -/
theorem pieces_induction (hpat : Unbordered pat) {P : List α → Prop}
    (single : ∀ s, ¬ pat <:+: s → P s)
    (sep : ∀ u s, ¬ pat <:+: u → P s → P (u ++ (pat ++ s))) (s : List α) : P s := by
  classical
  induction hn : s.length using Nat.strong_induction_on generalizing s with
  | _ n ih =>
    cases hfind : find pat s with
    | none => exact single s (find_eq_none_iff_absent.mp hfind)
    | some i =>
      obtain ⟨hle, ⟨rest, hrest⟩, hfirst⟩ := find_eq_some_iff.mp hfind
      have hsplit : s = s.take i ++ (pat ++ rest) := by rw [hrest, List.take_append_drop]
      have hpos := List.length_pos_of_ne_nil hpat.ne_nil
      have hlen : s.length = i + (pat.length + rest.length) := by
        have := congrArg List.length hsplit
        simpa [min_eq_left hle] using this
      rw [hsplit]
      refine sep _ _ ?_ (ih rest.length (by omega) rest rfl)
      intro hin
      obtain ⟨j, -, hp⟩ := exists_start hin
      have hj := hp.length_le
      simp only [List.length_drop, List.length_take, min_eq_left hle] at hj
      apply hfirst j (by omega)
      rw [hsplit, prefix_drop_append (by simp [min_eq_left hle]; omega)]
      exact hp

/-- **What is before a separator and what is behind it are cut independently.** -/
theorem pieces_append_sep (hpat : Unbordered pat) (u s : List α) :
    pieces pat (u ++ (pat ++ s)) = pieces pat u ++ pieces pat s := by
  induction u using pieces_induction hpat with
  | single u hu => rw [pieces_first hpat hu, pieces_of_absent hu, List.singleton_append]
  | sep v u hv ih =>
    rw [List.append_assoc, List.append_assoc, pieces_first hpat hv, ih, pieces_first hpat hv,
      List.cons_append]

/-- A single piece is the whole list. -/
theorem of_pieces_eq_singleton (hpat : Unbordered pat) (h : pieces pat s = [u]) :
    ¬ pat <:+: s ∧ s = u := by
  induction s using pieces_induction hpat with
  | single s hs =>
    rw [pieces_of_absent hs] at h
    exact ⟨hs, (List.cons.inj h).1⟩
  | sep v s hv _ =>
    rw [pieces_first hpat hv] at h
    exact absurd (List.cons.inj h).2 (pieces_ne_nil pat s)

/-! ## One piece longer -/

/-- Text before the list that no separator reaches into belongs to the first piece. -/
theorem pieces_prepend (hpat : Unbordered pat) (hu : ∀ v, pat <:+: u ++ v → pat <:+: v)
    {q : List α} {ps : List (List α)} (h : pieces pat s = q :: ps) :
    pieces pat (u ++ s) = (u ++ q) :: ps := by
  induction s using pieces_induction hpat with
  | single s hs =>
    rw [pieces_of_absent hs] at h
    cases h
    exact pieces_of_absent fun hin => hs (hu _ hin)
  | sep v s hv ih =>
    rw [pieces_first hpat hv] at h
    cases h
    rw [← List.append_assoc]
    exact pieces_first hpat (fun hin => hv (hu _ hin)) s

/-- Text behind the list that no separator reaches into belongs to the last piece. -/
theorem pieces_append (hpat : Unbordered pat) (ht : ∀ v, pat <:+: v ++ t → pat <:+: v)
    {q : List α} {ps : List (List α)} (h : pieces pat s = ps ++ [q]) :
    pieces pat (s ++ t) = ps ++ [q ++ t] := by
  induction s using pieces_induction hpat generalizing ps with
  | single s hs =>
    rw [pieces_of_absent hs] at h
    rw [pieces_of_absent fun hin => hs (ht s hin)]
    obtain ⟨rfl, hq⟩ := List.append_inj' ((List.nil_append [s]).trans h) rfl
    cases hq
    rfl
  | sep v s hv ih =>
    rw [pieces_first hpat hv] at h
    rw [List.append_assoc, List.append_assoc, pieces_first hpat hv]
    cases ps with
    | nil => exact absurd (List.cons.inj h).2 (pieces_ne_nil pat s)
    | cons p ps =>
      obtain ⟨rfl, hrest⟩ := List.cons.inj h
      rw [ih hrest, List.cons_append]

omit [DecidableEq α] in
/-- Text without the first letter of the pattern. -/
theorem infix_of_notMem_left {c : α} (h : c ∉ u) (v : List α) (hin : c :: pat <:+: u ++ v) :
    c :: pat <:+: v := by
  obtain ⟨x, y, hxy⟩ := hin
  rw [List.append_assoc, List.append_eq_append_iff] at hxy
  rcases hxy with ⟨w, rfl, hw⟩ | ⟨w, rfl, rfl⟩
  · cases w with
    | nil => exact ⟨[], y, by simpa using hw⟩
    | cons d w =>
      obtain ⟨rfl, -⟩ := List.cons.inj hw
      exact absurd (by simp) h
  · exact ⟨w, y, by simp⟩

omit [DecidableEq α] in
/-- Text without the last letter of the pattern. -/
theorem infix_of_notMem_right {c : α} (h : c ∉ t) (v : List α) (hin : pat ++ [c] <:+: v ++ t) :
    pat ++ [c] <:+: v := by
  have hconcat : (pat ++ [c]).reverse = c :: pat.reverse := by simp
  rw [← List.reverse_infix, hconcat] at hin ⊢
  rw [List.reverse_append] at hin
  exact infix_of_notMem_left (by simpa using h) v.reverse hin

/-! ## Two separators in a row -/

/-- An empty piece that is not the last: the list starts with a separator, or the piece is not the
first one. -/
theorem nil_mem_dropLast_pieces (hpat : Unbordered pat) (s : List α) :
    [] ∈ (pieces pat s).dropLast ↔ pat <+: s ∨ [] ∈ (pieces pat s).tail.dropLast := by
  induction s using pieces_induction hpat with
  | single s hs =>
    have hstart : ¬ pat <+: s := fun h => hs h.isInfix
    simp [pieces_of_absent hs, hstart]
  | sep u s hu _ =>
    rw [pieces_first hpat hu, List.dropLast_cons_of_ne_nil (pieces_ne_nil pat s), List.mem_cons,
      List.tail_cons]
    have hstart : [] = u ↔ pat <+: u ++ (pat ++ s) := by
      constructor
      · rintro rfl
        exact List.prefix_append _ _
      · intro h
        by_contra hne
        exact hu (hpat.start_before (Ne.symm hne) h).isInfix
    rw [hstart]

omit [DecidableEq α] in
theorem double_infix_first (hpat : Unbordered pat) (hu : ¬ pat <:+: u) (s : List α) :
    pat ++ pat <:+: u ++ (pat ++ s) ↔ pat <+: s ∨ pat ++ pat <:+: s := by
  constructor
  · rintro ⟨x, y, hxy⟩
    have hdrop : pat ++ (pat ++ y) = (u ++ (pat ++ s)).drop x.length := by
      rw [← hxy, List.append_assoc, List.drop_left, List.append_assoc]
    rcases lt_or_ge x.length u.length with hlt | hge
    · -- It would start in the text before the first separator.
      exfalso
      rw [List.drop_append_of_le_length hlt.le] at hdrop
      have hstart : pat <+: u.drop x.length :=
        hpat.start_before (by simpa using hlt) (hdrop ▸ List.prefix_append _ _)
      exact hu (infix_of_start hstart)
    · rw [List.drop_append, List.drop_of_length_le hge, List.nil_append] at hdrop
      rcases Nat.eq_zero_or_pos (x.length - u.length) with hzero | hpos
      · rw [hzero, List.drop_zero, List.append_cancel_left_eq] at hdrop
        exact .inl ⟨y, hdrop⟩
      · have hle := hpat.start_behind hpos (hdrop ▸ List.prefix_append _ _)
        rw [List.drop_append, List.drop_of_length_le hle, List.nil_append] at hdrop
        have hin : pat ++ pat <+: s.drop (x.length - u.length - pat.length) :=
          ⟨y, by rw [← hdrop, List.append_assoc]⟩
        exact .inr (infix_of_start hin)
  · rintro (⟨v, rfl⟩ | ⟨x, y, rfl⟩)
    · exact ⟨u, v, by simp⟩
    · exact ⟨u ++ (pat ++ x), y, by simp⟩

/-- **Two separators in a row are an empty piece in between.** -/
theorem double_infix_iff (hpat : Unbordered pat) (s : List α) :
    pat ++ pat <:+: s ↔ [] ∈ (pieces pat s).tail.dropLast := by
  induction s using pieces_induction hpat with
  | single s hs =>
    have hno : ¬ pat ++ pat <:+: s := fun h => hs ((List.prefix_append _ _).isInfix.trans h)
    simp [pieces_of_absent hs, hno]
  | sep u s hu ih =>
    rw [double_infix_first hpat hu, pieces_first hpat hu, List.tail_cons,
      nil_mem_dropLast_pieces hpat, ih]

end Search
