import TitanBench.EngineStarted

/-!
# Accounts of https runs

A slot completes the requests it was granted. Besides, a slot that gives up connecting counts a
completion for which nothing was started.

* `Slot.failsToConnect` — the next step of the slot gives up.
* `slot_charge` — each completion is paid with a call of `PerformHttpGet`, or by giving up.
* `Runs.https_account` — the accounts of a run whose slots have all returned.
* `https_exact_iff` — the main result.
-/

namespace TitanBench

open Threads

/-! ## Slots that give up -/

/-- The slot is about to connect without success, and it has no retry left. -/
def Slot.failsToConnect (cfg : Config) (env : Env) (s : Slot) : Bool :=
  decide (s.ctl = .connecting) && !(Slot.ensureConnected cfg env.ssl s.client).2
    && decide (maxRetryPerSession ≤ s.retry)

def Thread.failsToConnect (cfg : Config) (env : Env) (t : Thread) : Bool :=
  match t with
  | ⟨[], .slot s⟩ => s.failsToConnect cfg env
  | _ => false

namespace Engine

variable {cfg : Config} {n : ℕ}

/-- The slots that give up, in the order in which they do. -/
def gaveUp (cfg : Config) (c : Conf n) (i : Option (Fin n)) (e : Env) : List (Option (Fin n)) :=
  if (c.locals i).failsToConnect cfg e then [i] else []

variable {env : Env} {sh : Shared n}

theorem completed_giveUp (nowNs : ℕ) : owed .completed (Slot.giveUpOps nowNs) = 1 := by
  simp [Slot.giveUpOps]

theorem completed_result (nowNs : ℕ) (result : Result) (status : ℤ) (ok : Bool) {ops : List Op}
    (h : ops = [] ∨ ops = [.add .retried 1]) :
    owed .completed (Slot.resultOps nowNs result status ok ++ ops) = 1 := by
  rcases h with rfl | rfl <;> cases ok <;> simp [Slot.resultOps]

/-- A slot that connects: it goes on, tries again or gives up. -/
theorem charge_connecting (i : Fin n) {s : Slot} (hc : s.ctl = .connecting) :
    owed .completed (slotStep cfg i env sh s).2.1 + s.sends
      = (slotStep cfg i env sh s).2.2.sends + if s.failsToConnect cfg env then 1 else 0 := by
  unfold slotStep Slot.failsToConnect
  rw [hc]
  dsimp only
  obtain ⟨client, connected⟩ := Slot.ensureConnected cfg env.ssl s.client
  cases connected with
  | true => simp
  | false =>
    by_cases hretry : s.retry < maxRetryPerSession
    · simp [hretry]
    · simp [hretry, completed_giveUp, not_lt.mp hretry, Nat.add_comm]

theorem slot_charge (i : Fin n) (s : Slot) :
    owed .completed (slotStep cfg i env sh s).2.1 + s.sends
      = (slotStep cfg i env sh s).2.2.sends + if s.failsToConnect cfg env then 1 else 0 := by
  by_cases hc : s.ctl = .connecting
  · exact charge_connecting i hc
  · have hno : s.failsToConnect cfg env = false := by simp [Slot.failsToConnect, hc]
    have hm := Slot.slotStep_move cfg i env sh s
    rw [hno, if_neg Bool.false_ne_true]
    generalize slotStep cfg i env sh s = r at hm
    cases hm with
    | connected _ hc' | retried _ hc' | gaveUp _ hc' => exact absurd hc' hc
    | performed client result status ok retry hc' hops =>
      have howed := completed_result env.nowNs result status ok hops
      dsimp only
      omega
    | _ => simp [Slot.goto]

/-- One step of a thread of an https run. -/
theorem step_charge (i : Option (Fin n)) (t : Thread) (hevent : t.body.event? = none)
    (hmain : i = none → ∃ m, t.body = .main m) :
    (step cfg i env sh t).1.counters .completed + owed .completed (step cfg i env sh t).2.ops
        + t.body.sends
      = sh.counters .completed + owed .completed t.ops + (step cfg i env sh t).2.body.sends
        + if t.failsToConnect cfg env then 1 else 0 := by
  obtain ⟨ops, body⟩ := t
  cases ops with
  | cons op rest =>
    have hpays := (execOp_exec i op rest sh).pays .completed
    simp only [step, Thread.failsToConnect, Bool.false_eq_true, if_false]
    omega
  | nil =>
    cases body with
    | main m =>
      cases i with
      | none =>
        have hf := mainStep_frame cfg env sh m
        have howed : owed .completed (mainStep cfg env sh m).2.1 = 0 := by
          rcases hf.ops with hops | hops <;> rw [hops] <;> rfl
        simp only [step, bodyStep, hf.counters, howed, Thread.failsToConnect, weigh_nil,
          Bool.false_eq_true, if_false]
        rfl
      | some i => rfl
    | event w => cases hevent
    | slot s =>
      cases i with
      | none =>
        obtain ⟨m, hm⟩ := hmain rfl
        cases hm
      | some i =>
        have hcharge := @slot_charge cfg n env sh i s
        have hcount : (slotStep cfg i env sh s).1.counters .completed = sh.counters .completed := by
          apply (Slot.slotStep_move cfg i env sh s).counters
          intro h
          cases h
        show (slotStep cfg i env sh s).1.counters .completed
            + owed .completed (slotStep cfg i env sh s).2.1 + s.sends
          = sh.counters .completed + 0 + (slotStep cfg i env sh s).2.2.sends
            + if s.failsToConnect cfg env then 1 else 0
        omega

/-! ## Runs -/

variable {beginNs : ℕ} {c : Conf cfg.threadCount} {log : List (Option (Fin cfg.threadCount))}

/-- With https there are no event-driven workers. -/
theorem Runs.event?_eq_none (hp : cfg.protocol = .https) (h : Runs cfg beginNs c)
    (i : Option (Fin cfg.threadCount)) : (c.locals i).body.event? = none := by
  refine h.local_invariant (J := fun t => t.body.event? = none) i ?_ ?_
  · cases i with
    | none => rfl
    | some i =>
      show (initialBody cfg i).event? = none
      rw [initialBody, if_pos hp]
      rfl
  · intro c e _ _ ht
    have hm := step_move cfg i e c.shared (c.locals i)
    generalize step cfg i e c.shared (c.locals i) = r at hm
    generalize c.locals i = t at hm ht
    cases hm with
    | op | stay => exact ht
    | event => cases ht
    | _ => rfl

theorem Runs.https_account (hp : cfg.protocol = .https) (hreq : cfg.hasRequests = true)
    (h : Logged (step cfg) (gaveUp cfg) (fun _ _ _ => True) (init cfg beginNs) c log)
    (hall : ∀ i, c.shared.running i = false) :
    c.shared.counters .completed = c.shared.counters .started + log.length := by
  have hruns : Runs cfg beginNs c := h.reach
  have haccount := h.account_eq (fun _ => 1) (v := fun sh => sh.counters .completed)
    (u := fun _ => 0) (p := fun _ t => owed .completed t.ops) (q := fun _ t => t.body.sends) ?_ ?_
  · rw [hruns.sum_weigh_eq_zero hall rfl, hruns.sends_eq_granted hall,
      ← hruns.started_eq_granted hreq, List.map_const', List.sum_replicate] at haccount
    simpa using haccount
  · have hinit : ∀ i, owed .completed ((init cfg beginNs).locals i).ops = 0
        ∧ ((init cfg beginNs).locals i).body.sends = 0 := by
      intro i
      cases i with
      | none => exact ⟨rfl, rfl⟩
      | some i =>
        refine ⟨rfl, ?_⟩
        show (initialBody cfg i).sends = 0
        rw [initialBody, if_pos hp]
        rfl
    simp [hinit]
    rfl
  · intro c i e hc _
    have hcr : Runs cfg beginNs c := hc
    have hcharge := @step_charge cfg _ e c.shared i (c.locals i)
      (hcr.event?_eq_none hp i) fun hi => hi ▸ hcr.main_body
    have hobs : ((gaveUp cfg c i e).map fun _ => 1).sum
        = if (c.locals i).failsToConnect cfg e then 1 else 0 := by
      unfold gaveUp
      split_ifs <;> rfl
    rw [hobs]
    omega

/-- **Https accounts are exact unless a slot gives up connecting.** In requests mode, once all
slots have returned, every completed request was started, and no more than `requests`, if and only
if no slot has given up. The command line accepts only positive numbers of requests. -/
theorem https_exact_iff (hp : cfg.protocol = .https) (hreq : cfg.hasRequests = true)
    (hpos : 0 ≤ cfg.requests) (hmax : cfg.requests < 2 ^ 63)
    (h : Logged (step cfg) (gaveUp cfg) (fun _ _ _ => True) (init cfg beginNs) c log)
    (hall : ∀ i, c.shared.running i = false) :
    c.shared.counters .completed = c.shared.counters .started ∧
        (c.shared.counters .started : ℤ) ≤ cfg.requests ↔ log = [] := by
  have hle := Runs.started_le_quota hreq h.reach
  have hquota := Config.quota_of_nonneg hpos hmax
  have haccount := Runs.https_account hp hreq h hall
  rw [← List.length_eq_zero_iff]
  omega

/-! ## One slot -/

def oneHttpsRequest : Config where
  concurrency := 1
  requests := 1
  protocol := .https
  host := ascii "localhost"
  port := 443
  hasRequests := true

/-- The only slot takes forty steps under the same answers. -/
def slotSchedule (e : Env) : List (Option (Fin oneHttpsRequest.threadCount) × Env) :=
  List.replicate 40 (some ⟨0, by decide⟩, e)

def slotRun (e : Env) : Conf oneHttpsRequest.threadCount :=
  (init oneHttpsRequest 0).run (step oneHttpsRequest) (slotSchedule e)

/-- The server takes the connection and answers. -/
def answering : Env where
  get := { recvs := [.data (ascii "HTTP/1.1 200 OK\r\nContent-Length: 0\r\n\r\n")] }

/-- The server refuses every connection. -/
def refusing : Env where
  ssl := { connect := .failed }

theorem https_exact_iff_answered :
    (slotRun answering).shared.counters .completed = (slotRun answering).shared.counters .started ∧
        ((slotRun answering).shared.counters .started : ℤ) ≤ oneHttpsRequest.requests ↔
      (init oneHttpsRequest 0).log (step oneHttpsRequest) (gaveUp oneHttpsRequest)
        (slotSchedule answering) = [] := by
  refine @https_exact_iff oneHttpsRequest 0 (slotRun answering) _ rfl rfl (by decide) (by decide)
    (logged_run (slotSchedule answering) (runOk_of_forall (fun _ _ _ => trivial) _)) ?_
  decide +kernel

/-- The slot gives up, and a request is completed that was never started. -/
theorem https_completed_unstarted :
    ¬ ∀ c, Runs oneHttpsRequest 0 c → (∀ i, c.shared.running i = false) →
      c.shared.counters .completed = c.shared.counters .started ∧
        (c.shared.counters .started : ℤ) ≤ oneHttpsRequest.requests := by
  intro h
  have hrun : Runs oneHttpsRequest 0 (slotRun refusing) := reachable_run _
  exact absurd (h _ hrun (by decide +kernel)).1 (by decide +kernel)

end Engine

end TitanBench
