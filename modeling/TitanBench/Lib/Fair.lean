import Mathlib.Order.WellFounded
import TitanBench.Lib.Threads

/-!
# Fair schedules

An infinite schedule lets the threads take their steps for ever, in some order. It is fair when
every thread gets its turn again and again.

* `Conf.trace` — the configurations an infinite schedule goes through.
* `Fair.eventually_idle` — if a step of a busy thread lowers a rank, and any other step lowers it or
  leaves the rank and the busy threads alone, then there comes a time when no thread is busy.
-/

namespace Threads

/-- Every thread gets its turn again and again. -/
def Fair {ι : Type*} (turn : ℕ → ι) : Prop := ∀ i k, ∃ m, k ≤ m ∧ turn m = i

theorem Fair.eventually_idle {ι C α : Type*} [LT α] [WellFoundedLT α] {turn : ℕ → ι}
    (hfair : Fair turn) (c : ℕ → C) (rank : C → α) (busy : C → ι → Prop) (k₀ : ℕ)
    (hstep : ∀ k, k₀ ≤ k → rank (c (k + 1)) < rank (c k) ∨
      rank (c (k + 1)) = rank (c k) ∧ ¬ busy (c k) (turn k) ∧
        ∀ i, busy (c k) i → busy (c (k + 1)) i) :
    ∃ k, k₀ ≤ k ∧ ∀ i, ¬ busy (c k) i := by
  have hany : ∀ (a : α) (k : ℕ), k₀ ≤ k → rank (c k) = a → ∃ m, k ≤ m ∧ ∀ i, ¬ busy (c m) i := by
    intro a
    induction a using WellFoundedLT.induction with
    | ind a ih =>
    intro k hk hrank
    by_contra hnever
    push Not at hnever
    have hlower : ∀ m, k ≤ m → ¬ rank (c m) < a := by
      intro m hm hlt
      obtain ⟨m', hm', hidle⟩ := ih _ hlt m (hk.trans hm) rfl
      obtain ⟨i, hi⟩ := hnever m' (hm.trans hm')
      exact hidle i hi
    obtain ⟨i, hi⟩ := hnever k le_rfl
    obtain ⟨m, hm, hturn⟩ := hfair i k
    -- the rank stays, so the thread stays busy until its turn
    have hstays : ∀ m, k ≤ m → rank (c m) = a ∧ busy (c m) i := by
      intro m hm
      induction m, hm using Nat.le_induction with
      | base => exact ⟨hrank, hi⟩
      | succ m hm ihm =>
        rcases hstep m (hk.trans hm) with hlt | ⟨hsame, -, hbusy⟩
        · rw [ihm.1] at hlt
          exact absurd hlt (hlower _ (hm.trans (Nat.le_succ m)))
        · exact ⟨hsame.trans ihm.1, hbusy i ihm.2⟩
    obtain ⟨hsame, hbusy⟩ := hstays m hm
    rcases hstep m (hk.trans hm) with hlt | ⟨-, hidle, -⟩
    · rw [hsame] at hlt
      exact hlower _ (hm.trans (Nat.le_succ m)) hlt
    · rw [hturn] at hidle
      exact hidle hbusy
  exact hany _ k₀ le_rfl rfl

section Traces

variable {ι S L E : Type*} [DecidableEq ι] {f : ι → E → S → L → S × L}
  {ok : Conf ι S L → ι → E → Prop} {c₀ c : Conf ι S L} {sched : ℕ → ι × E}

/-- A step that does nothing. -/
theorem Conf.step_eq_self {i : ι} {e : E}
    (h : f i e c.shared (c.locals i) = (c.shared, c.locals i)) : c.step f i e = c := by
  simp [Conf.step, h]

/-- The configuration after the first steps of an infinite schedule. -/
def Conf.trace (f : ι → E → S → L → S × L) (c : Conf ι S L) (sched : ℕ → ι × E) :
    ℕ → Conf ι S L
  | 0 => c
  | k + 1 => (c.trace f sched k).step f (sched k).1 (sched k).2

theorem Conf.trace_succ (k : ℕ) :
    c.trace f sched (k + 1) = (c.trace f sched k).step f (sched k).1 (sched k).2 := rfl

theorem Reach.trace (h : Reachable f c₀ c) (sched : ℕ → ι × E) (k : ℕ) :
    Reachable f c₀ (c.trace f sched k) := by
  induction k with
  | zero => exact h
  | succ k ih => exact ih.step _ _ trivial

/-- What every step keeps, holds from then on. -/
theorem Conf.trace_keeps {I : Conf ι S L → Prop} {k : ℕ}
    (hstep : ∀ m, k ≤ m → I (c.trace f sched m) → I (c.trace f sched (m + 1)))
    (h : I (c.trace f sched k)) {m : ℕ} (hm : k ≤ m) : I (c.trace f sched m) :=
  Nat.le_induction h hstep m hm

end Traces

end Threads
