import Mathlib.Data.List.Basic

/-!
# Runs of a machine, step by step

A machine is a function `step : σ → α → σ`. What a run does is read off its visits: each step of
it together with the state the step was taken in.

* `Mealy.run` — the state after a list of steps.
* `Mealy.visits` — the steps with the states they were taken in.
* `Mealy.run_invariant` — what each step keeps holds after the run.
* `Mealy.history_invariant` — the same for a fact that ties the state to the visits so far.
-/

namespace Mealy

variable {σ α : Type*} {step : σ → α → σ}

/-- The state after the steps. -/
def run (step : σ → α → σ) (s : σ) (steps : List α) : σ := steps.foldl step s

/-- Each step with the state it is taken in. -/
def visits (step : σ → α → σ) (s : σ) : List α → List (σ × α)
  | [] => []
  | a :: steps => (s, a) :: visits step (step s a) steps

@[simp] theorem run_nil (s : σ) : run step s [] = s := rfl

@[simp] theorem run_cons (s : σ) (a : α) (steps : List α) :
    run step s (a :: steps) = run step (step s a) steps := rfl

@[simp] theorem visits_nil (s : σ) : visits step s [] = [] := rfl

@[simp] theorem visits_cons (s : σ) (a : α) (steps : List α) :
    visits step s (a :: steps) = (s, a) :: visits step (step s a) steps := rfl

theorem run_append (s : σ) (steps steps' : List α) :
    run step s (steps ++ steps') = run step (run step s steps) steps' :=
  List.foldl_append

theorem visits_append (s : σ) (steps steps' : List α) :
    visits step s (steps ++ steps') =
      visits step s steps ++ visits step (run step s steps) steps' := by
  induction steps generalizing s with
  | nil => rfl
  | cons a steps ih =>
    rw [List.cons_append, visits_cons, visits_cons, ih, run_cons, List.cons_append]

/-- What each step keeps under the condition `ok` on the state it is taken in. -/
theorem history_invariant {I : σ → List (σ × α) → Prop} {ok : σ × α → Prop}
    (hstep : ∀ s hist a, ok (s, a) → I s hist → I (step s a) (hist ++ [(s, a)])) {s : σ}
    {hist : List (σ × α)} (h : I s hist) {steps : List α} (hok : ∀ x ∈ visits step s steps, ok x) :
    I (run step s steps) (hist ++ visits step s steps) := by
  induction steps generalizing s hist with
  | nil =>
    rw [visits_nil, List.append_nil]
    exact h
  | cons a steps ih =>
    rw [visits_cons] at hok
    have hnext := hstep s hist a (hok _ List.mem_cons_self) h
    have hrest := ih hnext fun x hx => hok x (List.mem_cons_of_mem _ hx)
    rw [visits_cons, run_cons]
    rwa [List.append_assoc, List.singleton_append] at hrest

theorem run_invariant {I : σ → Prop} {ok : σ × α → Prop}
    (hstep : ∀ s a, ok (s, a) → I s → I (step s a)) {s : σ} (h : I s) {steps : List α}
    (hok : ∀ x ∈ visits step s steps, ok x) : I (run step s steps) :=
  @history_invariant _ _ step (fun s _ => I s) ok (fun s _ a => hstep s a) s [] h steps hok

/-- Each visit of a run is in the state the steps before it lead to. -/
theorem mem_visits {s : σ} {steps : List α} {x : σ × α} (hx : x ∈ visits step s steps) :
    ∃ before after, steps = before ++ x.2 :: after ∧ x.1 = run step s before := by
  induction steps generalizing s with
  | nil => cases hx
  | cons a steps ih =>
    rcases List.mem_cons.mp hx with rfl | hx
    · exact ⟨[], steps, rfl, rfl⟩
    · obtain ⟨before, after, rfl, hstate⟩ := ih hx
      exact ⟨a :: before, after, rfl, hstate⟩

/-- What every step keeps holds in every state that is visited. -/
theorem visited_invariant {I : σ → Prop} (hstep : ∀ s a, I s → I (step s a)) {s : σ} (h : I s)
    {steps : List α} {x : σ × α} (hx : x ∈ visits step s steps) : I x.1 := by
  obtain ⟨before, after, -, hstate⟩ := mem_visits hx
  rw [hstate]
  exact @run_invariant _ _ step I (fun _ => True) (fun s a _ => hstep s a) s h before
    fun _ _ => trivial

end Mealy
