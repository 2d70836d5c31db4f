import TitanBench.Config
import TitanBench.Lib.Threads

/-!
# The shared request counter and the rate token

Two counters that all threads update without a lock. A step is one access to the counter;
`spurious` says that a weak compare-exchange fails although the values are equal.

* `quotaStep` — the next step of `AcquireRequestQuota`.
* `rateStep` — the next step of `WaitRateToken`.
* `quota_bound` — threads that do nothing but call `AcquireRequestQuota`.
-/

namespace TitanBench

open Threads

/-! ## AcquireRequestQuota -/

inductive QuotaPc
  | load
  | cas (old : ℕ)
  deriving DecidableEq

/-- One step on the counter `started`. The call goes on, or it returns a truth value. -/
def quotaStep (cfg : Config) (spurious : Bool) (started : ℕ) : QuotaPc → ℕ × (QuotaPc ⊕ Bool)
  | .load =>
    if cfg.hasRequests = false then (started, .inr true)
    else if started ≥ cfg.quota then (started, .inr false)
    else (started, .inl (.cas started))
  | .cas old =>
    if spurious = true ∨ started ≠ old then (started, .inl .load) else (started + 1, .inr true)

/-- What the thread knows of the value it is going to exchange. -/
def QuotaPc.Ok (cfg : Config) : QuotaPc → Prop
  | .load => True
  | .cas old => old < cfg.quota

/-- Everything one step can do. -/
theorem quotaStep_cases (cfg : Config) (spurious : Bool) (started : ℕ) {pc : QuotaPc}
    (hpc : pc.Ok cfg) :
    (∃ pc' : QuotaPc, quotaStep cfg spurious started pc = (started, .inl pc') ∧ pc'.Ok cfg) ∨
    (cfg.hasRequests = false ∧ quotaStep cfg spurious started pc = (started, .inr true)) ∨
    (cfg.quota ≤ started ∧ quotaStep cfg spurious started pc = (started, .inr false)) ∨
    (started < cfg.quota ∧ quotaStep cfg spurious started pc = (started + 1, .inr true)) := by
  cases pc with
  | load =>
    unfold quotaStep
    by_cases hr : cfg.hasRequests = false
    · exact .inr (.inl ⟨hr, if_pos hr⟩)
    · by_cases hq : started ≥ cfg.quota
      · exact .inr (.inr (.inl ⟨hq, by simp [hr, hq]⟩))
      · exact .inl ⟨.cas started, by simp [hr, hq], not_le.mp hq⟩
  | cas old =>
    unfold quotaStep
    by_cases hf : spurious = true ∨ started ≠ old
    · exact .inl ⟨.load, if_pos hf, trivial⟩
    · obtain ⟨-, rfl⟩ : spurious = false ∧ started = old := by simpa using hf
      exact .inr (.inr (.inr ⟨hpc, if_neg hf⟩))

/-- The counter never falls. -/
theorem quotaStep_le (cfg : Config) (spurious : Bool) (started : ℕ) (pc : QuotaPc) :
    started ≤ (quotaStep cfg spurious started pc).1 := by
  unfold quotaStep
  cases pc with
  | load =>
    dsimp only
    split_ifs <;> exact le_rfl
  | cas old =>
    dsimp only
    split_ifs
    · exact le_rfl
    · exact Nat.le_succ _

section Results

variable {cfg : Config} {spurious : Bool} {started started' : ℕ} {pc pc' : QuotaPc}

theorem quotaStep_acquires (hpc : pc.Ok cfg)
    (h : quotaStep cfg spurious started pc = (started', .inl pc')) :
    started' = started ∧ pc'.Ok cfg := by
  rcases quotaStep_cases cfg spurious started hpc with
    ⟨pc'', h', hok⟩ | ⟨-, h'⟩ | ⟨-, h'⟩ | ⟨-, h'⟩ <;> rw [h'] at h <;> cases h
  exact ⟨rfl, hok⟩

theorem quotaStep_refused (hpc : pc.Ok cfg)
    (h : quotaStep cfg spurious started pc = (started', .inr false)) :
    started' = started ∧ cfg.quota ≤ started := by
  rcases quotaStep_cases cfg spurious started hpc with
    ⟨pc'', h', -⟩ | ⟨-, h'⟩ | ⟨hq, h'⟩ | ⟨-, h'⟩ <;> rw [h'] at h <;> cases h
  exact ⟨rfl, hq⟩

theorem quotaStep_granted (hreq : cfg.hasRequests = true) (hpc : pc.Ok cfg)
    (h : quotaStep cfg spurious started pc = (started', .inr true)) :
    started' = started + 1 ∧ started < cfg.quota := by
  rcases quotaStep_cases cfg spurious started hpc with
    ⟨pc'', h', -⟩ | ⟨hr, -⟩ | ⟨-, h'⟩ | ⟨hq, h'⟩
  · rw [h'] at h
    cases h
  · rw [hreq] at hr
    cases hr
  · rw [h'] at h
    cases h
  · rw [h'] at h
    cases h
    exact ⟨rfl, hq⟩

end Results

/-! ## WaitRateToken -/

inductive RatePc
  | readClock
  | load (nowNs : ℤ)
  | cas (nowNs oldNs : ℤ)
  deriving DecidableEq

/-- One step on the token; `none` when the call returns, after a sleep that nobody sees. -/
def rateStep (intervalNs nowNs : ℤ) (spurious : Bool) (token : ℤ) : RatePc → ℤ × Option RatePc
  | .readClock => if intervalNs ≤ 0 then (token, none) else (token, some (.load nowNs))
  | .load now => (token, some (.cas now token))
  | .cas now old =>
    if spurious = true ∨ token ≠ old then (token, some .readClock)
    else (max old now + intervalNs, none)

/-- The interval `SharedState` computes from the concurrency. -/
def Config.rateIntervalNs (cfg : Config) : ℤ :=
  max 1 (1000000000 / max 1 (cfg.concurrency * 200))

/-! ## Callers of AcquireRequestQuota -/

/-- A thread that calls again and again, with the results it got. -/
structure Caller where
  pc : Option QuotaPc := none
  succeeded : ℕ := 0
  refused : ℕ := 0

def callerStep (cfg : Config) {ι : Type*} (_ : ι) (spurious : Bool) (started : ℕ) (t : Caller) :
    ℕ × Caller :=
  match t.pc with
  | none => (started, { t with pc := some .load })
  | some pc =>
    match quotaStep cfg spurious started pc with
    | (started, .inl pc) => (started, { t with pc := some pc })
    | (started, .inr true) => (started, { t with pc := none, succeeded := t.succeeded + 1 })
    | (started, .inr false) => (started, { t with pc := none, refused := t.refused + 1 })

section Callers

variable {cfg : Config} {ι : Type*} [DecidableEq ι]

def callers (ι : Type*) : Conf ι ℕ Caller := ⟨0, fun _ => {}⟩

def Caller.Ok (cfg : Config) (t : Caller) : Prop := ∀ pc, t.pc = some pc → pc.Ok cfg

/-- What one step from `started` and `t` to `started'` and `t'` keeps. -/
structure Caller.Step (cfg : Config) (started : ℕ) (t : Caller) (started' : ℕ) (t' : Caller) :
    Prop where
  ok : t'.Ok cfg
  count : started' + t.succeeded = started + t'.succeeded
  le : started ≤ cfg.quota → started' ≤ cfg.quota
  mono : started ≤ started'
  refused : t'.refused ≠ t.refused → cfg.quota ≤ started'

omit [DecidableEq ι] in
/-- The counter moves only below the quota, and only when the call succeeds. -/
theorem callerStep_spec (hreq : cfg.hasRequests = true) (i : ι) (spurious : Bool) (started : ℕ)
    {t : Caller} (ht : t.Ok cfg) :
    Caller.Step cfg started t (callerStep cfg i spurious started t).1
      (callerStep cfg i spurious started t).2 := by
  unfold callerStep
  cases hp : t.pc with
  | none =>
    refine ⟨fun pc h => ?_, rfl, id, le_rfl, fun h => absurd rfl h⟩
    cases h
    trivial
  | some pc =>
    dsimp only
    rcases quotaStep_cases cfg spurious started (ht pc hp) with
      ⟨pc', h, hok⟩ | ⟨hr, -⟩ | ⟨hq, h⟩ | ⟨hq, h⟩
    · rw [h]
      refine ⟨fun pc hpc => ?_, rfl, id, le_rfl, fun h => absurd rfl h⟩
      cases hpc
      exact hok
    · rw [hreq] at hr
      cases hr
    · rw [h]
      exact ⟨fun pc hpc => (nomatch hpc), rfl, id, le_rfl, fun _ => hq⟩
    · rw [h]
      refine ⟨fun pc hpc => (nomatch hpc), ?_, fun _ => hq, Nat.le_succ _, fun h => absurd rfl h⟩
      show started + 1 + t.succeeded = started + (t.succeeded + 1)
      omega

/-- **The quota holds for any callers.** In requests mode the counter never passes the quota, it
counts the calls that succeeded, and a call was refused only once the quota was used up. -/
theorem quota_bound [Fintype ι] (hreq : cfg.hasRequests = true) {c : Conf ι ℕ Caller}
    (h : Reachable (callerStep cfg) (callers ι) c) :
    c.shared ≤ cfg.quota ∧ c.shared = ∑ i, (c.locals i).succeeded ∧
      ∀ i, (c.locals i).refused ≠ 0 → c.shared = cfg.quota := by
  have hok : ∀ c, Reachable (callerStep cfg) (callers ι) c → ∀ i, (c.locals i).Ok cfg :=
    fun c h i => h.local_invariant (J := fun t => t.Ok cfg) i (fun pc hpc => nomatch hpc)
      fun c e _ _ ht => (callerStep_spec hreq i e c.shared ht).ok
  have hstep : ∀ c i e, Reachable (callerStep cfg) (callers ι) c →
      Caller.Step cfg c.shared (c.locals i) (callerStep cfg i e c.shared (c.locals i)).1
        (callerStep cfg i e c.shared (c.locals i)).2 :=
    fun c i e hc => callerStep_spec hreq i e c.shared (hok c hc i)
  have hle : c.shared ≤ cfg.quota :=
    h.shared (K := fun started => started ≤ cfg.quota) (Nat.zero_le _)
      fun c i e hc _ => (hstep c i e hc).le
  have hcount := h.account_eq (v := fun started : ℕ => started) (u := fun _ => 0)
    (p := fun _ _ => 0) (q := fun _ (t : Caller) => t.succeeded) (by simp [callers])
    fun c i e hc _ => by
      have hs := (hstep c i e hc).count
      omega
  have hrefused : ∀ i, (c.locals i).refused ≠ 0 → cfg.quota ≤ c.shared := by
    intro i
    refine h.thread_invariant (R := fun started t => t.refused ≠ 0 → cfg.quota ≤ started) i ?_ ?_ ?_
    · intro hne
      exact absurd rfl hne
    · intro c e hc _ ih hne
      have hs := hstep c i e hc
      by_cases heq : (callerStep cfg i e c.shared (c.locals i)).2.refused = (c.locals i).refused
      · exact (ih (heq ▸ hne)).trans hs.mono
      · exact hs.refused heq
    · intro c j e hc _ _ ih hne
      exact (ih hne).trans (hstep c j e hc).mono
  refine ⟨hle, ?_, fun i hi => le_antisymm hle (hrefused i hi)⟩
  simpa using hcount

end Callers

end TitanBench
