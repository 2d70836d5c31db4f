import TitanBench.Quota
import TitanBench.Lib.Spacing

/-!
# Threads that wait for the rate token

Any number of threads call `WaitRateToken` on one token, again and again. A thread acts on a clock
reading and on a token value that may both be old when its compare-exchange runs.

**The grants** (`grants`). A call is granted by the compare-exchange that succeeds. The log of a run
holds, in the order of these exchanges, the reading the thread used and the slot it got.

**Why stale values do no harm.** The exchange succeeds only if the token still has the value that
was loaded, so the slot is computed from the token of the moment of the exchange. The token is
therefore always the slot that is free after the grants so far (`Spacing.next`).

Main result: `rate_spacing`.
-/

namespace TitanBench

open Threads

/-- A successful compare-exchange: the reading `now_ns` and the slot `slot_ns` of its thread. -/
structure Grant where
  nowNs : ℤ
  slotNs : ℤ
  deriving DecidableEq

/-- A thread between two calls, or in a call. The environment answers the clock reading and whether
a weak compare-exchange fails for nothing. -/
def rateCaller (intervalNs : ℤ) {ι : Type*} (_ : ι) (env : ℤ × Bool) (token : ℤ) :
    Option RatePc → ℤ × Option RatePc
  | none => (token, some .readClock)
  | some pc => rateStep intervalNs env.1 env.2 token pc

section Callers

variable {ι : Type*} [DecidableEq ι] {intervalNs token₀ : ℤ}

/-- All threads between two calls, the token at its initial value. -/
def rateCallers (ι : Type*) (token₀ : ℤ) : Conf ι ℤ (Option RatePc) := ⟨token₀, fun _ => none⟩

/-- What a step grants. -/
def grants (c : Conf ι ℤ (Option RatePc)) (i : ι) (env : ℤ × Bool) : List Grant :=
  match c.locals i with
  | some (.cas now old) =>
    if env.2 = true ∨ c.shared ≠ old then [] else [⟨now, max old now⟩]
  | _ => []

/-- The runs of the threads with their grants. -/
abbrev RateRun (intervalNs token₀ : ℤ) (c : Conf ι ℤ (Option RatePc)) (log : List Grant) : Prop :=
  Logged (rateCaller intervalNs) grants (fun _ _ _ => True) (rateCallers ι token₀) c log

/-- A step leaves the token alone and grants nothing, or it exchanges the token for the slot after
the one it grants. -/
theorem rateCaller_cases (intervalNs : ℤ) (c : Conf ι ℤ (Option RatePc)) (i : ι) (env : ℤ × Bool) :
    ((c.step (rateCaller intervalNs) i env).shared = c.shared ∧ grants c i env = []) ∨
      ∃ now, (c.step (rateCaller intervalNs) i env).shared = max c.shared now + intervalNs ∧
        grants c i env = [⟨now, max c.shared now⟩] := by
  rw [Conf.step_shared]
  unfold grants
  cases hl : c.locals i with
  | none => exact .inl ⟨rfl, rfl⟩
  | some pc =>
    cases pc with
    | readClock =>
      refine .inl ⟨?_, rfl⟩
      simp only [rateCaller, rateStep]
      split_ifs <;> rfl
    | load now => exact .inl ⟨rfl, rfl⟩
    | cas now old =>
      simp only [rateCaller, rateStep]
      by_cases hf : env.2 = true ∨ c.shared ≠ old
      · exact .inl ⟨by rw [if_pos hf], if_pos hf⟩
      · obtain ⟨-, rfl⟩ : env.2 = false ∧ c.shared = old := by simpa using hf
        exact .inr ⟨now, by rw [if_neg hf], if_neg hf⟩

/-- The token is the slot that is free after the grants, which got the slots in turn. -/
theorem rate_token {c : Conf ι ℤ (Option RatePc)} {log : List Grant}
    (h : RateRun intervalNs token₀ c log) :
    c.shared = Spacing.next intervalNs token₀ (log.map Grant.nowNs) ∧
      log.map Grant.slotNs = Spacing.slots intervalNs token₀ (log.map Grant.nowNs) := by
  refine h.invariant (I := fun c log =>
    c.shared = Spacing.next intervalNs token₀ (log.map Grant.nowNs) ∧
      log.map Grant.slotNs = Spacing.slots intervalNs token₀ (log.map Grant.nowNs))
    ⟨rfl, rfl⟩ ?_
  intro c log i env _ _ ⟨htoken, hslots⟩
  rcases rateCaller_cases intervalNs c i env with ⟨hsame, hno⟩ | ⟨now, hnew, hgrant⟩
  · rw [hsame, hno, List.append_nil]
    exact ⟨htoken, hslots⟩
  · rw [hnew, hgrant, List.map_append, List.map_append, Spacing.next_append, Spacing.slots_append,
      ← htoken, ← hslots]
    exact ⟨rfl, rfl⟩

/-- What the grants of a run satisfy, from the first one on. -/
structure Spaced (intervalNs token₀ : ℤ) (log : List Grant) : Prop where
  first : ∀ g, log[0]? = some g → g.slotNs = max token₀ g.nowNs
  succ : ∀ (i : ℕ) g g', log[i]? = some g → log[i + 1]? = some g' →
    g'.slotNs = max (g.slotNs + intervalNs) g'.nowNs
  reading : ∀ g ∈ log, g.nowNs ≤ g.slotNs
  apart : log.Pairwise fun g g' => g.slotNs + intervalNs ≤ g'.slotNs
  window : ∀ lo length : ℤ, 0 ≤ length →
    (log.countP fun g => decide (lo ≤ g.slotNs ∧ g.slotNs ≤ lo + length) : ℤ)
      ≤ length / intervalNs + 1

/-- Grants that get the slots in turn are spaced. -/
theorem spaced_of_slots {log : List Grant} (hpos : 0 < intervalNs)
    (h : log.map Grant.slotNs = Spacing.slots intervalNs token₀ (log.map Grant.nowNs)) :
    Spaced intervalNs token₀ log := by
  have hslot : ∀ {i : ℕ} {g : Grant}, log[i]? = some g →
      (Spacing.slots intervalNs token₀ (log.map Grant.nowNs))[i]? = some g.slotNs := by
    intro i g hg
    rw [← h, List.getElem?_map, hg]
    rfl
  have hnow : ∀ {i : ℕ} {g : Grant}, log[i]? = some g →
      (log.map Grant.nowNs)[i]? = some g.nowNs := by
    intro i g hg
    rw [List.getElem?_map, hg]
    rfl
  have hpairs : (log.map Grant.slotNs).Pairwise fun s s' => s + intervalNs ≤ s' := by
    rw [h]
    exact Spacing.slots_pairwise hpos.le
  constructor
  · intro g hg
    obtain ⟨now, hread, hs⟩ := Spacing.slots_head _ _ _ (hslot hg)
    rw [hnow hg] at hread
    cases hread
    exact hs
  · intro i g g' hg hg'
    obtain ⟨now, hread, hs⟩ := Spacing.slots_succ _ _ _ (hslot hg) (hslot hg')
    rw [hnow hg'] at hread
    cases hread
    exact hs
  · intro g hg
    obtain ⟨i, hi⟩ := List.getElem?_of_mem hg
    exact Spacing.now_le (hnow hi) (hslot hi)
  · exact List.pairwise_map.mp hpairs
  · intro lo length hlen
    have hcount := Spacing.count_window lo (lo + length) hpos hpairs (by omega)
    rw [List.countP_map, add_sub_cancel_left] at hcount
    exact hcount

/-- **The rate token spaces the grants.** However the threads interleave and whatever their clocks
read, each grant gets the first slot that is neither before its reading nor less than an interval
after the slot before it. A window of time never holds more slots than its length has intervals,
and one. -/
theorem rate_spacing (hpos : 0 < intervalNs) {c : Conf ι ℤ (Option RatePc)} {log : List Grant}
    (h : RateRun intervalNs token₀ c log) : Spaced intervalNs token₀ log :=
  spaced_of_slots hpos (rate_token h).2

end Callers

/-- Two threads that load the same token: the first exchange succeeds, the second thread starts
again and gets the next slot. -/
def rateRace : List (Bool × (ℤ × Bool)) :=
  [(false, 0, false), (true, 0, false), (false, 95, false), (true, 97, false), (false, 0, false),
    (true, 0, false), (true, 0, false), (false, 0, false), (false, 99, false), (false, 0, false),
    (false, 0, true), (false, 103, false), (false, 0, false), (false, 0, false)]

theorem rate_spacing_race :
    (rateCallers Bool 100).log (rateCaller 10) grants rateRace = [⟨97, 100⟩, ⟨103, 110⟩] ∧
      Spaced 10 100 [⟨97, 100⟩, ⟨103, 110⟩] := by
  have hlog : (rateCallers Bool 100).log (rateCaller 10) grants rateRace =
      [⟨97, 100⟩, ⟨103, 110⟩] := by decide +kernel
  have hrun : RateRun 10 100 ((rateCallers Bool 100).run (rateCaller 10) rateRace)
      ((rateCallers Bool 100).log (rateCaller 10) grants rateRace) :=
    logged_run rateRace (runOk_of_forall (fun _ _ _ => trivial) rateRace)
  refine ⟨hlog, ?_⟩
  have hspaced := rate_spacing (by decide) hrun
  rwa [hlog] at hspaced

end TitanBench
