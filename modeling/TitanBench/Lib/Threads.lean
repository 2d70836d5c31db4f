import Mathlib.Algebra.BigOperators.Group.Finset.Piecewise
import Mathlib.Algebra.Order.Group.Defs
import Mathlib.Algebra.BigOperators.Ring.Finset
import Mathlib.Algebra.Order.BigOperators.Group.Finset
import Mathlib.Algebra.Order.Ring.Int
import Mathlib.Tactic.Abel
import TitanBench.Lib.Mealy

/-!
# Threads over a shared state

A thread is a total function: from its answer of the environment, the shared state and its own
local state it computes the next of both. A run takes the threads' steps in any order.

* `Reach` — the configurations of the runs whose steps all meet a condition.
* `Reach.invariant` — what holds at first and is kept by every step holds throughout.
* `Logged` — the runs together with what an observer writes down of each step.
* `Logged.invariant` — the same as `Reach.invariant` with what was observed so far.
* `Logged.part` — a machine that is a part of a thread, and its steps.
* `Reach.local_invariant`, `Reach.thread_invariant` — the same for a fact about one thread.
* `Reach.sum_le` — a quantity the threads hold in parts: if no step makes the shared part plus
  the mover's part grow, the total never grows.
* `Reach.account_le`, `Reach.account_eq` — the same for two natural-number accounts.
-/

namespace Threads

variable {ι S L E O : Type*} [DecidableEq ι]

structure Conf (ι S L : Type*) where
  shared : S
  locals : ι → L

/-- Thread `i` takes one step, the environment answering `e`. -/
def Conf.step (f : ι → E → S → L → S × L) (c : Conf ι S L) (i : ι) (e : E) : Conf ι S L where
  shared := (f i e c.shared (c.locals i)).1
  locals := Function.update c.locals i (f i e c.shared (c.locals i)).2

/-- The steps of a schedule in order. -/
def Conf.run (f : ι → E → S → L → S × L) (c : Conf ι S L) : List (ι × E) → Conf ι S L
  | [] => c
  | x :: xs => (c.step f x.1 x.2).run f xs

/-- Every step of the schedule meets `ok`. -/
def RunOk (f : ι → E → S → L → S × L) (ok : Conf ι S L → ι → E → Prop) (c : Conf ι S L) :
    List (ι × E) → Prop
  | [] => True
  | x :: xs => ok c x.1 x.2 ∧ RunOk f ok (c.step f x.1 x.2) xs

instance RunOk.decidable (f : ι → E → S → L → S × L) (ok : Conf ι S L → ι → E → Prop)
    [∀ c i e, Decidable (ok c i e)] : ∀ c xs, Decidable (RunOk f ok c xs)
  | _, [] => isTrue trivial
  | c, x :: xs => haveI := RunOk.decidable f ok (c.step f x.1 x.2) xs; instDecidableAnd

/-- The configurations of the runs from `c₀` whose steps all meet `ok`. -/
inductive Reach (f : ι → E → S → L → S × L) (ok : Conf ι S L → ι → E → Prop)
    (c₀ : Conf ι S L) : Conf ι S L → Prop
  | init : Reach f ok c₀ c₀
  | step {c : Conf ι S L} (i : ι) (e : E) :
      Reach f ok c₀ c → ok c i e → Reach f ok c₀ (c.step f i e)

/-- The configurations of all runs. -/
abbrev Reachable (f : ι → E → S → L → S × L) : Conf ι S L → Conf ι S L → Prop :=
  Reach f fun _ _ _ => True

variable {f : ι → E → S → L → S × L} {ok : Conf ι S L → ι → E → Prop} {c₀ c : Conf ι S L}

@[simp] theorem Conf.step_shared (i : ι) (e : E) :
    (c.step f i e).shared = (f i e c.shared (c.locals i)).1 := rfl

theorem Conf.step_local_self (i : ι) (e : E) :
    (c.step f i e).locals i = (f i e c.shared (c.locals i)).2 := by
  simp [Conf.step]

theorem Conf.step_local_ne {i j : ι} (h : j ≠ i) (e : E) :
    (c.step f i e).locals j = c.locals j := by
  simp [Conf.step, Function.update_of_ne h]

/-! ## Runs -/

theorem Reach.append_run (h : Reach f ok c₀ c) :
    ∀ xs : List (ι × E), RunOk f ok c xs → Reach f ok c₀ (c.run f xs) := by
  intro xs hok
  induction xs generalizing c with
  | nil => exact h
  | cons x xs ih => exact ih (h.step x.1 x.2 hok.1) hok.2

theorem reach_run (xs : List (ι × E)) (h : RunOk f ok c₀ xs) : Reach f ok c₀ (c₀.run f xs) :=
  Reach.init.append_run xs h

theorem runOk_of_forall (h : ∀ c i e, ok c i e) (xs : List (ι × E)) : RunOk f ok c xs := by
  induction xs generalizing c with
  | nil => trivial
  | cons x xs ih => exact ⟨h c x.1 x.2, ih⟩

theorem reachable_run (xs : List (ι × E)) : Reachable f c₀ (c₀.run f xs) :=
  reach_run xs (runOk_of_forall (fun _ _ _ => trivial) xs)

/-- Fewer steps are allowed under a stronger condition. -/
theorem Reach.mono {ok' : Conf ι S L → ι → E → Prop} (h : Reach f ok c₀ c)
    (himp : ∀ c i e, ok c i e → ok' c i e) : Reach f ok' c₀ c := by
  induction h with
  | init => exact .init
  | step i e _ hok ih => exact ih.step i e (himp _ _ _ hok)

theorem Reach.reachable (h : Reach f ok c₀ c) : Reachable f c₀ c := h.mono fun _ _ _ _ => trivial

/-! ## Invariants -/

theorem Reach.invariant {I : Conf ι S L → Prop} (h : Reach f ok c₀ c) (h₀ : I c₀)
    (hstep : ∀ c i e, Reach f ok c₀ c → ok c i e → I c → I (c.step f i e)) : I c := by
  induction h with
  | init => exact h₀
  | step i e hc hok ih => exact hstep _ i e hc hok ih

/-- A fact about the local state of one thread: only its own steps matter. -/
theorem Reach.local_invariant {J : L → Prop} (h : Reach f ok c₀ c) (i : ι) (h₀ : J (c₀.locals i))
    (hstep : ∀ c e, Reach f ok c₀ c → ok c i e → J (c.locals i) →
      J (f i e c.shared (c.locals i)).2) : J (c.locals i) := by
  refine h.invariant (I := fun c => J (c.locals i)) h₀ ?_
  intro c j e hc hok ih
  by_cases hj : j = i
  · subst hj
    rw [Conf.step_local_self]
    exact hstep c e hc hok ih
  · rw [Conf.step_local_ne (Ne.symm hj)]
    exact ih

/-- A fact about the shared state. -/
theorem Reach.shared {K : S → Prop} (h : Reach f ok c₀ c) (h₀ : K c₀.shared)
    (hstep : ∀ c i e, Reach f ok c₀ c → ok c i e → K c.shared →
      K (f i e c.shared (c.locals i)).1) : K c.shared :=
  h.invariant (I := fun c => K c.shared) h₀ hstep

/-- A fact that ties the local state of one thread to the shared state: the thread keeps it, and no
step of another thread breaks it. -/
theorem Reach.thread_invariant {R : S → L → Prop} (h : Reach f ok c₀ c) (i : ι)
    (h₀ : R c₀.shared (c₀.locals i))
    (hown : ∀ c e, Reach f ok c₀ c → ok c i e → R c.shared (c.locals i) →
      R (f i e c.shared (c.locals i)).1 (f i e c.shared (c.locals i)).2)
    (hother : ∀ c j e, Reach f ok c₀ c → ok c j e → j ≠ i → R c.shared (c.locals i) →
      R (f j e c.shared (c.locals j)).1 (c.locals i)) : R c.shared (c.locals i) := by
  refine h.invariant (I := fun c => R c.shared (c.locals i)) h₀ ?_
  intro c j e hc hok ih
  by_cases hj : j = i
  · subst hj
    rw [Conf.step_local_self]
    exact hown c e hc hok ih
  · rw [Conf.step_local_ne (Ne.symm hj)]
    exact hother c j e hc hok hj ih

/-! ## Logs -/

/-- The runs from `c₀` whose steps all meet `ok`, each with the observations `obs` of its steps. -/
inductive Logged (f : ι → E → S → L → S × L) (obs : Conf ι S L → ι → E → List O)
    (ok : Conf ι S L → ι → E → Prop) (c₀ : Conf ι S L) : Conf ι S L → List O → Prop
  | init : Logged f obs ok c₀ c₀ []
  | step {c : Conf ι S L} {log : List O} (i : ι) (e : E) :
      Logged f obs ok c₀ c log → ok c i e → Logged f obs ok c₀ (c.step f i e) (log ++ obs c i e)

/-- A fact about the configuration and the log: every step keeps it. -/
theorem Logged.invariant {obs : Conf ι S L → ι → E → List O} {log : List O}
    {I : Conf ι S L → List O → Prop} (h : Logged f obs ok c₀ c log) (h₀ : I c₀ [])
    (hstep : ∀ c log i e, Logged f obs ok c₀ c log → ok c i e → I c log →
      I (c.step f i e) (log ++ obs c i e)) : I c log := by
  induction h with
  | init => exact h₀
  | step i e hc hok ih => exact hstep _ _ i e hc hok ih

/-- What is observed on a schedule. -/
def Conf.log (f : ι → E → S → L → S × L) (obs : Conf ι S L → ι → E → List O) (c : Conf ι S L) :
    List (ι × E) → List O
  | [] => []
  | x :: xs => obs c x.1 x.2 ++ (c.step f x.1 x.2).log f obs xs

section Logs

variable {obs : Conf ι S L → ι → E → List O} {log : List O}

theorem Logged.reach (h : Logged f obs ok c₀ c log) : Reach f ok c₀ c := by
  induction h with
  | init => exact .init
  | step i e _ hok ih => exact ih.step i e hok

/-- Fewer steps are allowed under a stronger condition. -/
theorem Logged.mono {ok' : Conf ι S L → ι → E → Prop} (h : Logged f obs ok c₀ c log)
    (himp : ∀ c i e, Reach f ok c₀ c → ok c i e → ok' c i e) : Logged f obs ok' c₀ c log := by
  induction h with
  | init => exact .init
  | step i e hc hok ih => exact ih.step i e (himp _ i e hc.reach hok)

/-- A part of what is observed is the log of the same run. -/
theorem Logged.filterMap {P : Type*} (g : O → Option P) (h : Logged f obs ok c₀ c log) :
    Logged f (fun c i e => (obs c i e).filterMap g) ok c₀ c (log.filterMap g) := by
  induction h with
  | init => exact .init
  | step i e _ hok ih =>
    rw [List.filterMap_append]
    exact ih.step i e hok

theorem Logged.append_run (h : Logged f obs ok c₀ c log) :
    ∀ xs : List (ι × E), RunOk f ok c xs →
      Logged f obs ok c₀ (c.run f xs) (log ++ c.log f obs xs) := by
  intro xs hok
  induction xs generalizing c log with
  | nil => simpa [Conf.log, Conf.run] using h
  | cons x xs ih =>
    rw [Conf.log, ← List.append_assoc]
    exact ih (h.step x.1 x.2 hok.1) hok.2

theorem logged_run (xs : List (ι × E)) (h : RunOk f ok c₀ xs) :
    Logged f obs ok c₀ (c₀.run f xs) (c₀.log f obs xs) :=
  Logged.init.append_run xs h

/-- Each entry of a log is observed on some step of the run. -/
theorem Logged.split (h : Logged f obs ok c₀ c log) {before after : List O} {x : O}
    (hlog : log = before ++ x :: after) :
    ∃ c' log' i e before' after', Logged f obs ok c₀ c' log' ∧ ok c' i e ∧
      obs c' i e = before' ++ x :: after' ∧ before = log' ++ before' := by
  induction h generalizing after with
  | init => simp at hlog
  | @step c log i e hc hok ih =>
    rcases List.append_eq_append_iff.mp hlog with ⟨before', hbefore, hobs⟩ | ⟨rest, hlog', hrest⟩
    · exact ⟨c, log, i, e, before', after, hc, hok, hobs, hbefore⟩
    · cases rest with
      | nil =>
        rw [List.append_nil] at hlog'
        have hobs : obs c i e = x :: after := by simpa using hrest.symm
        exact ⟨c, log, i, e, [], after, hc, hok, hobs, by simpa using hlog'.symm⟩
      | cons y rest =>
        obtain ⟨rfl, -⟩ := List.cons.inj hrest
        exact ih hlog'

/-- A fact that ties the local state of one thread to the shared state and the log: the thread keeps
it, and the steps of other threads do not break it and are not observed. -/
theorem Logged.thread_invariant {R : S → L → List O → Prop} (h : Logged f obs ok c₀ c log) (i : ι)
    (h₀ : R c₀.shared (c₀.locals i) [])
    (hown : ∀ c log e, Logged f obs ok c₀ c log → ok c i e → R c.shared (c.locals i) log →
      R (f i e c.shared (c.locals i)).1 (f i e c.shared (c.locals i)).2 (log ++ obs c i e))
    (hother : ∀ c log j e, Logged f obs ok c₀ c log → ok c j e → j ≠ i →
      R c.shared (c.locals i) log → R (f j e c.shared (c.locals j)).1 (c.locals i) log)
    (hobs : ∀ c j e, j ≠ i → obs c j e = []) : R c.shared (c.locals i) log := by
  induction h with
  | init => exact h₀
  | @step c log j e hc hok ih =>
    by_cases hj : j = i
    · subst hj
      rw [Conf.step_local_self]
      exact hown c log e hc hok ih
    · rw [Conf.step_local_ne (Ne.symm hj), hobs c j e hj, List.append_nil]
      exact hother c log j e hc hok hj ih

/-- A fact that ties the local state of one thread to the log. -/
theorem Logged.local_invariant {J : L → List O → Prop} (h : Logged f obs ok c₀ c log) (i : ι)
    (h₀ : J (c₀.locals i) [])
    (hown : ∀ c log e, Logged f obs ok c₀ c log → ok c i e → J (c.locals i) log →
      J (f i e c.shared (c.locals i)).2 (log ++ obs c i e))
    (hobs : ∀ c j e, j ≠ i → obs c j e = []) : J (c.locals i) log :=
  h.thread_invariant (R := fun _ l log => J l log) i h₀ hown (fun _ _ _ _ _ _ _ hJ => hJ) hobs

end Logs

/-! ## Parts -/

section Parts

variable {κ A σ : Type*} [DecidableEq κ]

/-- The entries under one key. -/
def entriesOf (k : κ) (log : List (κ × A)) : List A :=
  log.filterMap fun x => if x.1 = k then some x.2 else none

theorem entriesOf_append (k : κ) (log log' : List (κ × A)) :
    entriesOf k (log ++ log') = entriesOf k log ++ entriesOf k log' := List.filterMap_append

theorem entriesOf_self (k : κ) (entries : List A) : entriesOf k (entries.map (k, ·)) = entries := by
  simp [entriesOf, List.filterMap_map]

theorem entriesOf_other {k k' : κ} (hk : k' ≠ k) (entries : List A) :
    entriesOf k (entries.map (k', ·)) = [] := by
  simp [entriesOf, hk]

/-- **A part of a thread that is a machine.** If what a step of the thread does to it is observed as
steps of the machine, it is throughout the run what the steps observed make of it. -/
theorem Logged.part {obs : Conf ι S L → ι → E → List (κ × A)} {log : List (κ × A)}
    {machine : σ → A → σ} {g : L → σ} (h : Logged f obs ok c₀ c log) (i : ι) (k : κ)
    (hown : ∀ c e, Mealy.run machine (g (c.locals i)) (entriesOf k (obs c i e))
      = g (f i e c.shared (c.locals i)).2)
    (hother : ∀ c j e, j ≠ i → entriesOf k (obs c j e) = []) :
    Mealy.run machine (g (c₀.locals i)) (entriesOf k log) = g (c.locals i) := by
  induction h with
  | init => rfl
  | @step c log j e _ _ ih =>
    rw [entriesOf_append, Mealy.run_append, ih]
    by_cases hj : j = i
    · subst hj
      rw [hown, Conf.step_local_self]
    · rw [hother c j e hj, Conf.step_local_ne (Ne.symm hj)]
      rfl

end Parts

/-! ## Quantities held in parts -/

section Sums

variable [Fintype ι] {M : Type*} [AddCommGroup M]

/-- Only the mover's part changes. -/
theorem Conf.sum_step (p : ι → L → M) (c : Conf ι S L) (i : ι) (e : E) :
    ∑ j, p j ((c.step f i e).locals j) =
      ∑ j, p j (c.locals j) - p i (c.locals i)
        + p i (f i e c.shared (c.locals i)).2 := by
  have hstep : (fun j => p j ((c.step f i e).locals j)) =
      Function.update (fun j => p j (c.locals j)) i (p i (f i e c.shared (c.locals i)).2) := by
    funext j
    by_cases hj : j = i
    · subst hj
      rw [Conf.step_local_self, Function.update_self]
    · rw [Conf.step_local_ne hj, Function.update_of_ne hj]
  rw [hstep, Finset.sum_update_of_mem (Finset.mem_univ i),
    ← Finset.sum_sdiff (Finset.subset_univ {i}), Finset.sum_singleton]
  abel

theorem Reach.sum_le [PartialOrder M] [IsOrderedAddMonoid M] {v : S → M} {p : ι → L → M}
    (h : Reach f ok c₀ c)
    (hstep : ∀ c i e, Reach f ok c₀ c → ok c i e →
      v (f i e c.shared (c.locals i)).1 + p i (f i e c.shared (c.locals i)).2
        ≤ v c.shared + p i (c.locals i)) :
    v c.shared + ∑ i, p i (c.locals i) ≤ v c₀.shared + ∑ i, p i (c₀.locals i) := by
  refine h.invariant
    (I := fun c => v c.shared + ∑ i, p i (c.locals i)
      ≤ v c₀.shared + ∑ i, p i (c₀.locals i)) le_rfl fun c i e hc hok ih => ?_
  have hmove := add_le_add_right (hstep c i e hc hok)
    (∑ j, p j (c.locals j) - p i (c.locals i))
  calc v (c.step f i e).shared + ∑ j, p j ((c.step f i e).locals j)
      = (∑ j, p j (c.locals j) - p i (c.locals i))
        + (v (f i e c.shared (c.locals i)).1 + p i (f i e c.shared (c.locals i)).2) := by
        rw [Conf.sum_step, Conf.step_shared]
        abel
    _ ≤ (∑ j, p j (c.locals j) - p i (c.locals i))
        + (v c.shared + p i (c.locals i)) := hmove
    _ = v c.shared + ∑ j, p j (c.locals j) := by abel
    _ ≤ v c₀.shared + ∑ j, p j (c₀.locals j) := ih

end Sums

/-! Two natural-number accounts of one thing. -/

section Accounts

variable [Fintype ι] {u v : S → ℕ} {p q : ι → L → ℕ}

/-- If no step gains more on the left than on the right, the left stays below. -/
theorem Reach.account_le (h : Reach f ok c₀ c)
    (h₀ : v c₀.shared + ∑ i, p i (c₀.locals i) ≤ u c₀.shared + ∑ i, q i (c₀.locals i))
    (hstep : ∀ c i e, Reach f ok c₀ c → ok c i e →
      v (f i e c.shared (c.locals i)).1 + p i (f i e c.shared (c.locals i)).2
          + (u c.shared + q i (c.locals i))
        ≤ v c.shared + p i (c.locals i)
          + (u (f i e c.shared (c.locals i)).1 + q i (f i e c.shared (c.locals i)).2)) :
    v c.shared + ∑ i, p i (c.locals i) ≤ u c.shared + ∑ i, q i (c.locals i) := by
  have hsum := h.sum_le (M := ℤ) (v := fun s => (v s : ℤ) - u s)
    (p := fun i l => (p i l : ℤ) - q i l) fun c i e hc hok => by
      have hs := hstep c i e hc hok
      omega
  simp only [Finset.sum_sub_distrib, ← Nat.cast_sum] at hsum
  omega

/-- If every step gains the same on both sides, they stay equal. -/
theorem Reach.account_eq (h : Reach f ok c₀ c)
    (h₀ : v c₀.shared + ∑ i, p i (c₀.locals i) = u c₀.shared + ∑ i, q i (c₀.locals i))
    (hstep : ∀ c i e, Reach f ok c₀ c → ok c i e →
      v (f i e c.shared (c.locals i)).1 + p i (f i e c.shared (c.locals i)).2
          + (u c.shared + q i (c.locals i))
        = v c.shared + p i (c.locals i)
          + (u (f i e c.shared (c.locals i)).1 + q i (f i e c.shared (c.locals i)).2)) :
    v c.shared + ∑ i, p i (c.locals i) = u c.shared + ∑ i, q i (c.locals i) := by
  refine le_antisymm (h.account_le h₀.le fun c i e hc hok => (hstep c i e hc hok).le)
    (h.account_le h₀.ge fun c i e hc hok => ?_)
  have hs := hstep c i e hc hok
  omega

/-- If every step gains the same on both sides but for what is observed of it, so does a run. -/
theorem Logged.account_eq {obs : Conf ι S L → ι → E → List O} {log : List O} (g : O → ℕ)
    (h : Logged f obs ok c₀ c log)
    (h₀ : v c₀.shared + ∑ i, p i (c₀.locals i) = u c₀.shared + ∑ i, q i (c₀.locals i))
    (hstep : ∀ c i e, Reach f ok c₀ c → ok c i e →
      v (f i e c.shared (c.locals i)).1 + p i (f i e c.shared (c.locals i)).2
          + (u c.shared + q i (c.locals i))
        = v c.shared + p i (c.locals i)
          + (u (f i e c.shared (c.locals i)).1 + q i (f i e c.shared (c.locals i)).2)
          + ((obs c i e).map g).sum) :
    v c.shared + ∑ i, p i (c.locals i) = u c.shared + ∑ i, q i (c.locals i) + (log.map g).sum := by
  induction h with
  | init => simpa using h₀
  | @step c log i e hc hok ih =>
    have hs := hstep c i e hc.reach hok
    have hp := Conf.sum_step (f := f) (fun i l => (p i l : ℤ)) c i e
    have hq := Conf.sum_step (f := f) (fun i l => (q i l : ℤ)) c i e
    simp only [← Nat.cast_sum] at hp hq
    rw [List.map_append, List.sum_append, Conf.step_shared]
    omega

end Accounts

end Threads
