import Mathlib.Data.List.Nodup
import Mathlib.Data.List.Infix

/-!
# Linked lists in a heap

The nodes of a heap point to each other: `next a` is the node behind `a`, if there is one.

* `Linked next head l` — from `head` one meets exactly the nodes `l`, in order, and the list ends.
* `Reaches next head a` — from `head` one meets `a`. The list may run into a cycle.
-/

namespace Chain

variable {α : Type*} {next next' : α → Option α} {head : Option α} {l l' : List α} {a b : α}

def Linked (next : α → Option α) : Option α → List α → Prop
  | head, [] => head = none
  | head, a :: l => head = some a ∧ Linked next (next a) l

inductive Reaches (next : α → Option α) : Option α → α → Prop
  | here (a : α) : Reaches next (some a) a
  | there {a b : α} : Reaches next (next b) a → Reaches next (some b) a

@[simp] theorem linked_nil : Linked next head [] ↔ head = none := Iff.rfl

@[simp] theorem linked_cons : Linked next head (a :: l) ↔ head = some a ∧ Linked next (next a) l :=
  Iff.rfl

/-- A list that begins nowhere has no nodes. -/
theorem Linked.eq_nil (h : Linked next none l) : l = [] := by
  cases l with
  | nil => rfl
  | cons a l => cases h.1

/-- A list that begins with `a` goes on behind `a`. -/
theorem Linked.eq_cons (h : Linked next (some a) l) :
    ∃ l', l = a :: l' ∧ Linked next (next a) l' := by
  cases l with
  | nil => cases h
  | cons b l =>
    obtain ⟨hhead, htail⟩ := h
    cases hhead
    exact ⟨l, rfl, htail⟩

theorem Linked.unique (h : Linked next head l) (h' : Linked next head l') : l = l' := by
  induction l generalizing head l' with
  | nil =>
    cases h
    exact h'.eq_nil.symm
  | cons a l ih =>
    obtain ⟨rfl, htail⟩ := h
    obtain ⟨l'', rfl, htail'⟩ := h'.eq_cons
    rw [ih htail htail']

/-- Only the pointers of the list's own nodes matter. -/
theorem Linked.congr (h : Linked next head l) (hnext : ∀ a ∈ l, next' a = next a) :
    Linked next' head l := by
  induction l generalizing head with
  | nil => exact h
  | cons a l ih =>
    refine ⟨h.1, ih ?_ fun b hb => hnext b (List.mem_cons_of_mem _ hb)⟩
    rw [hnext a List.mem_cons_self]
    exact h.2

theorem not_reaches_none : ¬ Reaches next none a := fun h => nomatch h

theorem Linked.reaches_iff (h : Linked next head l) : Reaches next head a ↔ a ∈ l := by
  induction l generalizing head with
  | nil =>
    cases h
    exact ⟨fun hr => absurd hr not_reaches_none, fun hm => nomatch hm⟩
  | cons b l ih =>
    obtain ⟨rfl, htail⟩ := h
    rw [List.mem_cons, ← ih htail]
    constructor
    · intro hr
      cases hr with
      | here => exact .inl rfl
      | there hr => exact .inr hr
    · rintro (rfl | hr)
      · exact .here _
      · exact .there hr

/-- The rest of a list, from a node of it on. -/
theorem Linked.suffix (h : Linked next head l) (hr : Reaches next head b) :
    ∃ l', Linked next (some b) l' ∧ l' <:+ l := by
  induction l generalizing head with
  | nil =>
    cases h
    cases hr
  | cons a l ih =>
    obtain ⟨rfl, htail⟩ := h
    cases hr with
    | here => exact ⟨b :: l, ⟨rfl, htail⟩, List.suffix_rfl⟩
    | there hr =>
      obtain ⟨l', hl', hsuffix⟩ := ih htail hr
      exact ⟨l', hl', hsuffix.trans (List.suffix_cons a l)⟩

/-- A list that ends does not come back to a node: the two rests would be the same list. -/
theorem Linked.nodup (h : Linked next head l) : l.Nodup := by
  induction l generalizing head with
  | nil => exact List.nodup_nil
  | cons a l ih =>
    obtain ⟨rfl, htail⟩ := h
    refine List.nodup_cons.mpr ⟨fun ha => ?_, ih htail⟩
    obtain ⟨l', hl', hsuffix⟩ := htail.suffix (htail.reaches_iff.mpr ha)
    have hsame : l' = a :: l := hl'.unique ⟨rfl, htail⟩
    have hle := hsuffix.length_le
    rw [hsame, List.length_cons] at hle
    omega

end Chain
