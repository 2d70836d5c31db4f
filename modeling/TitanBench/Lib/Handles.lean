import Mathlib.Data.List.Perm.Basic
import TitanBench.Lib.Mealy

/-!
# Handles that are opened and closed

What a program does with handles is a list of events. `audit` follows it with the handles that are
owned, and stops when one is closed that is not owned.

* `Handles.audit` — the handles owned at the end.
* `Handles.audit_block`, `Handles.perm_of_audit` — some openings and then some closings.
* `Handles.Takes` — the same for events in any order; `Handles.takes_visits` for a run.
* `Handles.perm_visits` — a machine that holds handles: what a run of it opens and closes.
* `Handles.audit_visits_iff` — exactly when a run closes each handle it opens once, and no other.
-/

namespace Handles

open Mealy

variable {β : Type*} [DecidableEq β]

inductive Event (β : Type*)
  | opened (handle : β)
  | closed (handle : β)

deriving instance DecidableEq for Event

/-- The handles owned after the events, if only owned ones are closed. -/
def audit : List β → List (Event β) → Option (List β)
  | owned, [] => some owned
  | owned, .opened handle :: events => audit (handle :: owned) events
  | owned, .closed handle :: events =>
    if handle ∈ owned then audit (owned.erase handle) events else none

/-- Some openings and then some closings. -/
def block (opens closes : List β) : List (Event β) := opens.map .opened ++ closes.map .closed

theorem audit_closes {owned closes rest : List β} (h : owned.Perm (closes ++ rest))
    (events : List (Event β)) :
    ∃ owned', owned'.Perm rest ∧
      audit owned (closes.map .closed ++ events) = audit owned' events := by
  induction closes generalizing owned with
  | nil => exact ⟨owned, h, rfl⟩
  | cons handle closes ih =>
    have hmem : handle ∈ owned := h.symm.subset List.mem_cons_self
    have herase : (owned.erase handle).Perm (closes ++ rest) := by
      have hrest := h.erase handle
      rwa [List.cons_append, List.erase_cons_head] at hrest
    obtain ⟨owned', hperm, haudit⟩ := ih herase
    refine ⟨owned', hperm, ?_⟩
    show (if handle ∈ owned then audit (owned.erase handle) _ else none) = _
    rw [if_pos hmem]
    exact haudit

theorem audit_opens (owned opens : List β) (events : List (Event β)) :
    ∃ owned', owned'.Perm (opens ++ owned) ∧
      audit owned (opens.map .opened ++ events) = audit owned' events := by
  induction opens generalizing owned with
  | nil => exact ⟨owned, .refl _, rfl⟩
  | cons handle opens ih =>
    obtain ⟨owned', hperm, haudit⟩ := ih (handle :: owned)
    exact ⟨owned', hperm.trans List.perm_middle, haudit⟩

/-- A block closes what is owned if that suffices for what it closes and what is left. -/
theorem audit_block {owned opens closes rest : List β}
    (h : (opens ++ owned).Perm (closes ++ rest)) (events : List (Event β)) :
    ∃ owned', owned'.Perm rest ∧
      audit owned (block opens closes ++ events) = audit owned' events := by
  obtain ⟨middle, hmiddle, hopens⟩ := audit_opens owned opens (closes.map .closed ++ events)
  obtain ⟨owned', hperm, hcloses⟩ := audit_closes (hmiddle.trans h) events
  refine ⟨owned', hperm, ?_⟩
  unfold block
  rw [List.append_assoc, hopens, hcloses]

theorem count_of_audit_closes {owned closes : List β} {events : List (Event β)} {last : List β}
    (h : audit owned (closes.map .closed ++ events) = some last) :
    ∃ owned', audit owned' events = some last ∧ owned.Perm (closes ++ owned') := by
  induction closes generalizing owned with
  | nil => exact ⟨owned, h, .refl _⟩
  | cons handle closes ih =>
    have hcons : (if handle ∈ owned then
        audit (owned.erase handle) (closes.map .closed ++ events) else none) = some last := h
    split_ifs at hcons with hmem
    obtain ⟨owned', haudit, hperm⟩ := ih hcons
    exact ⟨owned', haudit, (List.perm_cons_erase hmem).trans (hperm.cons handle)⟩

/-- Conversely, a block that passes closes nothing but what is owned. -/
theorem perm_of_audit {owned opens closes : List β} {events : List (Event β)} {last : List β}
    (h : audit owned (block opens closes ++ events) = some last) :
    ∃ owned', audit owned' events = some last ∧ (opens ++ owned).Perm (closes ++ owned') := by
  unfold block at h
  rw [List.append_assoc] at h
  obtain ⟨middle, hmiddle, hopens⟩ := audit_opens owned opens (closes.map .closed ++ events)
  rw [hopens] at h
  obtain ⟨owned', haudit, hperm⟩ := count_of_audit_closes h
  exact ⟨owned', haudit, hmiddle.symm.trans hperm⟩

/-! ## Events in any order -/

/-- Whoever owns `owned` can go through the events, and owns `owned'` afterwards. -/
def Takes (owned : List β) (events : List (Event β)) (owned' : List β) : Prop :=
  ∀ l, l.Perm owned → ∃ l', l'.Perm owned' ∧ audit l events = some l'

theorem audit_append (owned : List β) (events events' : List (Event β)) :
    audit owned (events ++ events') = (audit owned events).bind fun l => audit l events' := by
  induction events generalizing owned with
  | nil => rfl
  | cons event events ih =>
    cases event with
    | opened handle => exact ih (handle :: owned)
    | closed handle =>
      simp only [List.cons_append, audit]
      split_ifs
      · exact ih _
      · rfl

theorem takes_nil (owned : List β) : Takes owned [] owned := fun l h => ⟨l, h, rfl⟩

theorem takes_opened (owned : List β) (handle : β) :
    Takes owned [.opened handle] (handle :: owned) :=
  fun l h => ⟨handle :: l, h.cons handle, rfl⟩

theorem takes_closed (owned : List β) (handle : β) :
    Takes (handle :: owned) [.closed handle] owned := by
  intro l h
  have hmem : handle ∈ l := h.symm.subset List.mem_cons_self
  refine ⟨l.erase handle, ?_, by simp [audit, hmem]⟩
  have herase := h.erase handle
  rwa [List.erase_cons_head] at herase

theorem Takes.append {owned owned' owned'' : List β} {events events' : List (Event β)}
    (h : Takes owned events owned') (h' : Takes owned' events' owned'') :
    Takes owned (events ++ events') owned'' := by
  intro l hl
  obtain ⟨l', hl', haudit⟩ := h l hl
  obtain ⟨l'', hl'', haudit'⟩ := h' l' hl'
  refine ⟨l'', hl'', ?_⟩
  rw [audit_append, haudit]
  exact haudit'

/-- What is opened is closed or owned at last. -/
theorem count_of_audit {owned last : List β} {events : List (Event β)}
    (h : audit owned events = some last) (handle : β) :
    owned.count handle + events.count (.opened handle)
      = last.count handle + events.count (.closed handle) := by
  induction events generalizing owned with
  | nil =>
    cases h
    rfl
  | cons event events ih =>
    cases event with
    | opened other =>
      have hrest := ih h
      by_cases hother : other = handle
      · simp [hother] at hrest ⊢
        omega
      · simp [hother] at hrest ⊢
        omega
    | closed other =>
      have hcons : (if other ∈ owned then audit (owned.erase other) events else none) = some last :=
        h
      split_ifs at hcons with hmem
      have hrest := ih hcons
      by_cases hother : other = handle
      · subst hother
        have hpos := List.count_pos_iff.mpr hmem
        simp at hrest ⊢
        omega
      · rw [List.count_erase_of_ne (Ne.symm hother)] at hrest
        simp [hother] at hrest ⊢
        omega

/-! ## Machines -/

section Machine

variable {σ α : Type*} {step : σ → α → σ} {held : σ → List β} {opens closes extra : σ × α → List β}

/-- The events of a run. -/
def log (opens closes : σ × α → List β) (visits : List (σ × α)) : List (Event β) :=
  visits.flatMap fun x => block (opens x) (closes x)

/-- What a run takes, when each step of it takes what the machine holds to what it holds next. -/
theorem takes_visits {events : σ × α → List (Event β)} {s : σ} {steps : List α}
    (hstep : ∀ x ∈ visits step s steps, Takes (held x.1) (events x) (held (step x.1 x.2))) :
    Takes (held s) ((visits step s steps).flatMap events) (held (run step s steps)) := by
  induction steps generalizing s with
  | nil => exact takes_nil _
  | cons a steps ih =>
    rw [visits_cons, List.flatMap_cons, run_cons]
    exact (hstep (s, a) List.mem_cons_self).append
      (ih fun x hx => hstep x (List.mem_cons_of_mem _ hx))

/-- What is opened in a run and held at first is what is closed, but for the extra, or held at
last. -/
theorem perm_visits {s : σ} {steps : List α}
    (hstep : ∀ x ∈ visits step s steps,
      (opens x ++ extra x ++ held x.1).Perm (closes x ++ held (step x.1 x.2))) :
    ((visits step s steps).flatMap opens ++ (visits step s steps).flatMap extra ++ held s).Perm
      ((visits step s steps).flatMap closes ++ held (run step s steps)) := by
  induction steps generalizing s with
  | nil => exact .refl _
  | cons a steps ih =>
    have hfirst := hstep (s, a) List.mem_cons_self
    have hrest := ih fun x hx => hstep x (List.mem_cons_of_mem _ hx)
    rw [List.perm_iff_count] at hfirst hrest ⊢
    intro handle
    have h₁ := hfirst handle
    have h₂ := hrest handle
    simp only [visits_cons, run_cons, List.flatMap_cons, List.count_append] at h₁ h₂ ⊢
    omega

/-- Without anything extra, what is owned is what the machine holds. -/
theorem audit_visits {s : σ} {steps : List α}
    (hstep : ∀ x ∈ visits step s steps,
      (opens x ++ extra x ++ held x.1).Perm (closes x ++ held (step x.1 x.2)))
    (hextra : ∀ x ∈ visits step s steps, extra x = []) {owned : List β}
    (howned : owned.Perm (held s)) :
    ∃ last, audit owned (log opens closes (visits step s steps)) = some last ∧
      last.Perm (held (run step s steps)) := by
  induction steps generalizing s owned with
  | nil => exact ⟨owned, rfl, howned⟩
  | cons a steps ih =>
    have hfirst := hstep (s, a) List.mem_cons_self
    rw [hextra (s, a) List.mem_cons_self, List.append_nil] at hfirst
    obtain ⟨owned', hperm, haudit⟩ := audit_block ((howned.append_left _).trans hfirst)
      (log opens closes (visits step (step s a) steps))
    obtain ⟨last, hlast, hheld⟩ := ih (fun x hx => hstep x (List.mem_cons_of_mem _ hx))
      (fun x hx => hextra x (List.mem_cons_of_mem _ hx)) hperm
    exact ⟨last, haudit.trans hlast, hheld⟩

/-- Everything extra is missing at the end from what the machine should hold. -/
theorem extra_perm_of_audit {s : σ} {steps : List α}
    (hstep : ∀ x ∈ visits step s steps,
      (opens x ++ extra x ++ held x.1).Perm (closes x ++ held (step x.1 x.2))) {owned : List β}
    {last : List β} (h : audit owned (log opens closes (visits step s steps)) = some last) :
    ((visits step s steps).flatMap extra ++ last ++ held s).Perm
      (held (run step s steps) ++ owned) := by
  induction steps generalizing s owned with
  | nil =>
    cases h
    exact List.perm_append_comm
  | cons a steps ih =>
    obtain ⟨owned', haudit, hperm⟩ := perm_of_audit h
    have hfirst := hstep (s, a) List.mem_cons_self
    have hrest := ih (fun x hx => hstep x (List.mem_cons_of_mem _ hx)) haudit
    rw [List.perm_iff_count] at hfirst hrest hperm ⊢
    intro handle
    have h₁ := hfirst handle
    have h₂ := hrest handle
    have h₃ := hperm handle
    simp only [visits_cons, run_cons, List.flatMap_cons, List.count_append] at h₁ h₂ h₃ ⊢
    omega

/-- **A run passes exactly when nothing extra is closed.** `extra` is what a step closes beyond
what the machine holds or opens; the machine holds nothing at first and nothing at last. -/
theorem audit_visits_iff {s : σ} {steps : List α}
    (hstep : ∀ x ∈ visits step s steps,
      (opens x ++ extra x ++ held x.1).Perm (closes x ++ held (step x.1 x.2)))
    (hfirst : held s = []) (hlast : held (run step s steps) = []) :
    audit [] (log opens closes (visits step s steps)) = some [] ↔
      ∀ x ∈ visits step s steps, extra x = [] := by
  constructor
  · intro h
    have hperm := extra_perm_of_audit hstep h
    rw [hfirst, hlast, List.append_nil, List.append_nil, List.append_nil] at hperm
    exact List.flatMap_eq_nil_iff.mp hperm.eq_nil
  · intro h
    have hnone : ([] : List β).Perm (held s) := by rw [hfirst]
    obtain ⟨last, haudit, hperm⟩ := audit_visits hstep h hnone
    rw [hlast] at hperm
    rw [haudit, hperm.eq_nil]

end Machine

end Handles
