import TitanBench.EngineMoves

/-!
# The request quota of a run

A thread sends a request only after `AcquireRequestQuota` granted it one, so the bound on the
shared counter is a bound on the requests of all threads together.

* `QuotaInv` — what a thread knows; `Move.quota` says what one step does to it and to the counter.
* `Runs.started_eq_granted`, `Runs.started_le_quota`, `Runs.sends_le_started` — every reachable
  state.
* `request_quota` — the main result.
-/

namespace TitanBench

open Threads

/-! ## What a thread was granted -/

namespace Body

/-- The requests the thread has issued. -/
def sends : Body → ℕ
  | .main _ => 0
  | .event w => w.sends
  | .slot s => s.sends

/-- The requests the thread was granted. -/
def granted : Body → ℕ
  | .main _ => 0
  | .event w => w.granted
  | .slot s => s.granted

/-- The thread was granted a request it has not issued yet. -/
def inHand : Body → ℕ
  | .main _ => 0
  | .event w =>
    match w.ctl with
    | .waiting .. => 1
    | .sending .. => 1
    | _ => 0
  | .slot s =>
    match s.ctl with
    | .waiting _ => 1
    | .performing => 1
    | _ => 0

/-- A thread about to exchange the counter holds a value below the quota. -/
def QuotaOk (cfg : Config) : Body → Prop
  | .main _ => True
  | .event w =>
    match w.ctl with
    | .acquiring _ pc _ _ => pc.Ok cfg
    | _ => True
  | .slot s =>
    match s.ctl with
    | .acquiring pc => pc.Ok cfg
    | _ => True

end Body

section Places

variable {w : EventWorker} {s : Slot}

theorem inHand_waiting {id now : ℕ} {pc : RatePc} {todo : List ℕ}
    (hc : w.ctl = .waiting id pc now todo) : (Body.event w).inHand = 1 := by
  simp [Body.inHand, hc]

theorem inHand_sending {id now : ℕ} {todo : List ℕ} (hc : w.ctl = .sending id now todo) :
    (Body.event w).inHand = 1 := by
  simp [Body.inHand, hc]

theorem quotaOk_acquiring {cfg : Config} {id now : ℕ} {pc : QuotaPc} {todo : List ℕ}
    (hc : w.ctl = .acquiring id pc now todo) (h : (Body.event w).QuotaOk cfg) : pc.Ok cfg := by
  simpa only [Body.QuotaOk, hc] using h

theorem inHand_goes {ctl : EventCtl} (h : w.Goes ctl) : (Body.event (w.goto ctl)).inHand = 0 := by
  cases h <;> rfl

theorem quotaOk_goes {ctl : EventCtl} (h : w.Goes ctl) (cfg : Config) :
    (Body.event (w.goto ctl)).QuotaOk cfg := by
  cases h <;> trivial

theorem inHand_slotWaiting {pc : RatePc} (hc : s.ctl = .waiting pc) :
    (Body.slot s).inHand = 1 := by
  simp [Body.inHand, hc]

theorem inHand_performing (hc : s.ctl = .performing) : (Body.slot s).inHand = 1 := by
  simp [Body.inHand, hc]

theorem quotaOk_slotAcquiring {cfg : Config} {pc : QuotaPc} (hc : s.ctl = .acquiring pc)
    (h : (Body.slot s).QuotaOk cfg) : pc.Ok cfg := by
  simpa only [Body.QuotaOk, hc] using h

theorem inHand_slotGoes {ctl : SlotCtl} (h : s.Goes ctl) :
    (Body.slot (s.goto ctl)).inHand = 0 := by
  cases h <;> rfl

theorem quotaOk_slotGoes {ctl : SlotCtl} (h : s.Goes ctl) (cfg : Config) :
    (Body.slot (s.goto ctl)).QuotaOk cfg := by
  cases h <;> trivial

end Places

/-- A data event starts no request. -/
theorem owed_started_dataEvent (cfg : Config) (env : Env) (data : Bytes) (old : Session) :
    owed .started (EventWorker.dataEvent cfg env data old).1 = 0 := by
  have hd := EventWorker.dataEvent_digested cfg env data old
  generalize EventWorker.dataEvent cfg env data old = r at hd
  cases hd with
  | rejected => simp [EventWorker.parseErrorOps]
  | finished => simp [EventWorker.owed_response]
  | _ => rfl

/-! ## What one step does -/

namespace Engine

variable {cfg : Config}

structure QuotaInv (cfg : Config) (t : Thread) : Prop where
  ok : t.body.QuotaOk cfg
  owed : owed .started t.ops = 0
  used : t.body.sends + t.body.inHand ≤ t.body.granted

/-- What one step from `started` and `t` to `started'` and `t'` keeps. -/
structure QuotaStep (cfg : Config) (started : ℕ) (t : Thread) (started' : ℕ) (t' : Thread) :
    Prop where
  inv : QuotaInv cfg t'
  count : started' + t.body.granted = started + t'.body.granted
  le : started ≤ cfg.quota → started' ≤ cfg.quota

/-- A step that neither asks for a request nor issues one. -/
theorem QuotaInv.frame {t t' : Thread} (h : QuotaInv cfg t) (started : ℕ)
    (hok : t'.body.QuotaOk cfg) (howed : TitanBench.owed .started t'.ops = 0)
    (hgranted : t'.body.granted = t.body.granted)
    (hused : t'.body.sends + t'.body.inHand ≤ t.body.sends + t.body.inHand) :
    QuotaStep cfg started t started t' := by
  have hold := h.used
  exact ⟨⟨hok, howed, by omega⟩, by omega, id⟩

variable {n : ℕ} {env : Env} {sh : Shared n} {i : Fin n}

/-- No step of a worker leaves a started request to be counted later. -/
theorem owed_started_event {w : EventWorker} {r : Shared n × List Op × EventWorker}
    (hm : w.Move cfg i env sh r) : owed .started r.2.1 = 0 := by
  cases hm with
  | sent => simp [EventWorker.sendDoneOps]
  | sendFailed => simp [EventWorker.sendFailedOps]
  | errored =>
    unfold EventWorker.errorOps
    split_ifs <;> simp
  | @received ev _ old => simpa using owed_started_dataEvent cfg env ev.data old
  | _ => simp

theorem owed_started_slot {s : Slot} {r : Shared n × List Op × Slot}
    (hm : s.Move cfg i env sh r) : owed .started r.2.1 = 0 := by
  cases hm with
  | gaveUp => simp [Slot.giveUpOps]
  | performed client result status ok retry hc hops =>
    rcases hops with rfl | rfl <;> cases ok <;> simp [Slot.resultOps]
  | _ => simp

theorem quota_event (hreq : cfg.hasRequests = true) {w : EventWorker}
    {r : Shared n × List Op × EventWorker} (hm : w.Move cfg i env sh r)
    (h : QuotaInv cfg ⟨[], .event w⟩) :
    QuotaStep cfg (sh.counters .started) ⟨[], .event w⟩ (r.1.counters .started)
      ⟨r.2.1, .event r.2.2⟩ := by
  have hused : w.sends + (Body.event w).inHand ≤ w.granted := h.used
  have howed := owed_started_event hm
  cases hm with
  | goes hg =>
    refine h.frame _ (quotaOk_goes hg cfg) rfl rfl ?_
    rw [inHand_goes hg]
    exact Nat.le_add_right _ _
  | opened session hopens =>
    rcases hopens.next with ⟨left, rfl⟩ | ⟨events, rfl⟩ <;>
      exact h.frame _ trivial rfl rfl (Nat.le_add_right _ _)
  | acquires hc hq =>
    obtain ⟨rfl, hok⟩ := quotaStep_acquires (quotaOk_acquiring hc h.ok) hq
    rw [Shared.set_counters, if_pos rfl]
    exact h.frame _ hok rfl rfl (Nat.le_add_right _ _)
  | refused hc hq =>
    obtain ⟨rfl, -⟩ := quotaStep_refused (quotaOk_acquiring hc h.ok) hq
    rw [Shared.set_counters, if_pos rfl]
    exact h.frame _ trivial rfl rfl (Nat.le_add_right _ _)
  | granted hc hq =>
    obtain ⟨rfl, hlt⟩ := quotaStep_granted hreq (quotaOk_acquiring hc h.ok) hq
    rw [Shared.set_counters, if_pos rfl]
    refine ⟨⟨trivial, rfl, ?_⟩, ?_, fun _ => hlt⟩
    · show w.sends + 1 ≤ w.granted + 1
      omega
    · show sh.counters .started + 1 + w.granted = sh.counters .started + (w.granted + 1)
      omega
  | waits token hc =>
    refine h.frame _ trivial rfl rfl ?_
    show w.sends + 1 ≤ w.sends + (Body.event w).inHand
    rw [inHand_waiting hc]
  | waited token hc =>
    refine h.frame _ trivial rfl rfl ?_
    show w.sends + 1 ≤ w.sends + (Body.event w).inHand
    rw [inHand_waiting hc]
  | sent hc _ _ _ =>
    refine h.frame _ trivial howed rfl ?_
    show w.sends + 1 ≤ w.sends + (Body.event w).inHand
    rw [inHand_sending hc]
  | requested hc _ _ _ =>
    refine h.frame _ trivial howed rfl ?_
    show w.sends + 1 ≤ w.sends + (Body.event w).inHand
    rw [inHand_sending hc]
  | sendFailed hc _ _ =>
    refine h.frame _ trivial howed rfl ?_
    show w.sends + 1 ≤ w.sends + (Body.event w).inHand
    rw [inHand_sending hc]
  | _ => exact h.frame _ trivial howed rfl (Nat.le_add_right _ _)

theorem quota_slot (hreq : cfg.hasRequests = true) {s : Slot} {r : Shared n × List Op × Slot}
    (hm : s.Move cfg i env sh r) (h : QuotaInv cfg ⟨[], .slot s⟩) :
    QuotaStep cfg (sh.counters .started) ⟨[], .slot s⟩ (r.1.counters .started)
      ⟨r.2.1, .slot r.2.2⟩ := by
  have hused : s.sends + (Body.slot s).inHand ≤ s.granted := h.used
  have howed := owed_started_slot hm
  cases hm with
  | goes hg =>
    refine h.frame _ (quotaOk_slotGoes hg cfg) rfl rfl ?_
    rw [inHand_slotGoes hg]
    exact Nat.le_add_right _ _
  | acquires hc hq =>
    obtain ⟨rfl, hok⟩ := quotaStep_acquires (quotaOk_slotAcquiring hc h.ok) hq
    rw [Shared.set_counters, if_pos rfl]
    exact h.frame _ hok rfl rfl (Nat.le_add_right _ _)
  | refused hc hq =>
    obtain ⟨rfl, -⟩ := quotaStep_refused (quotaOk_slotAcquiring hc h.ok) hq
    rw [Shared.set_counters, if_pos rfl]
    exact h.frame _ trivial rfl rfl (Nat.le_add_right _ _)
  | granted hc hq =>
    obtain ⟨rfl, hlt⟩ := quotaStep_granted hreq (quotaOk_slotAcquiring hc h.ok) hq
    rw [Shared.set_counters, if_pos rfl]
    refine ⟨⟨trivial, rfl, ?_⟩, ?_, fun _ => hlt⟩
    · show s.sends + 1 ≤ s.granted + 1
      omega
    · show sh.counters .started + 1 + s.granted = sh.counters .started + (s.granted + 1)
      omega
  | waits token hc =>
    refine h.frame _ trivial rfl rfl ?_
    show s.sends + 1 ≤ s.sends + (Body.slot s).inHand
    rw [inHand_slotWaiting hc]
  | waited token hc =>
    refine h.frame _ trivial rfl rfl ?_
    show s.sends + 1 ≤ s.sends + (Body.slot s).inHand
    rw [inHand_slotWaiting hc]
  | performed client result status ok retry hc hops =>
    refine h.frame _ trivial howed rfl ?_
    show s.sends + 1 ≤ s.sends + (Body.slot s).inHand
    rw [inHand_performing hc]
  | _ => exact h.frame _ trivial howed rfl (Nat.le_add_right _ _)

/-- One step of any thread. -/
theorem Move.quota (hreq : cfg.hasRequests = true) {i : Option (Fin n)} {t : Thread}
    {r : Shared n × Thread} (hm : Move cfg env sh i t r) (h : QuotaInv cfg t) :
    QuotaStep cfg (sh.counters .started) t (r.1.counters .started) r.2 := by
  cases hm with
  | @op _ op rest body r hx =>
    have hpays := hx.pays .started
    have howed := h.owed
    dsimp only at howed
    have hle := hx.counters_le .started
    have hsame : r.1.counters .started = sh.counters .started := by omega
    have hrest : owed .started r.2 = 0 := by omega
    rw [hsame]
    exact h.frame _ h.ok hrest rfl le_rfl
  | @main m r hr =>
    have hf := mainStep_frame cfg env sh m
    rw [← hr] at hf
    rw [hf.counters]
    refine h.frame _ trivial ?_ rfl le_rfl
    rcases hf.ops with hops | hops <;> rw [hops] <;> rfl
  | event hm => exact quota_event hreq hm h
  | slot hm => exact quota_slot hreq hm h
  | stay => exact h.frame _ h.ok rfl rfl le_rfl

/-! ## What every run keeps -/

theorem quotaInv_init (cfg : Config) (beginNs : ℕ) (i : Option (Fin cfg.threadCount)) :
    QuotaInv cfg ((init cfg beginNs).locals i) := by
  cases i with
  | none => exact ⟨trivial, rfl, le_rfl⟩
  | some i =>
    show QuotaInv cfg { body := initialBody cfg i }
    unfold initialBody
    split_ifs <;> exact ⟨trivial, rfl, le_rfl⟩

variable {beginNs : ℕ} {c : Conf cfg.threadCount}

theorem Runs.quotaInv (hreq : cfg.hasRequests = true) (h : Runs cfg beginNs c)
    (i : Option (Fin cfg.threadCount)) : QuotaInv cfg (c.locals i) :=
  h.local_invariant (J := QuotaInv cfg) i (quotaInv_init cfg beginNs i)
    fun c e _ _ ht => ((step_move cfg i e c.shared (c.locals i)).quota hreq ht).inv

theorem Runs.quotaStep (hreq : cfg.hasRequests = true) (h : Runs cfg beginNs c)
    (i : Option (Fin cfg.threadCount)) (e : Env) :
    QuotaStep cfg (c.shared.counters .started) (c.locals i)
      ((step cfg i e c.shared (c.locals i)).1.counters .started)
      (step cfg i e c.shared (c.locals i)).2 :=
  (step_move cfg i e c.shared (c.locals i)).quota hreq (h.quotaInv hreq i)

theorem Runs.started_le_quota (hreq : cfg.hasRequests = true) (h : Runs cfg beginNs c) :
    c.shared.counters .started ≤ cfg.quota :=
  h.shared (K := fun sh => sh.counters .started ≤ cfg.quota) (Nat.zero_le _)
    fun c i e (hc : Runs cfg beginNs c) _ => (hc.quotaStep hreq i e).le

theorem granted_init (cfg : Config) (beginNs : ℕ) (i : Option (Fin cfg.threadCount)) :
    ((init cfg beginNs).locals i).body.granted = 0 := by
  cases i with
  | none => rfl
  | some i =>
    show (initialBody cfg i).granted = 0
    unfold initialBody
    split_ifs <;> rfl

/-- The counter is the number of requests granted. -/
theorem Runs.started_eq_granted (hreq : cfg.hasRequests = true) (h : Runs cfg beginNs c) :
    c.shared.counters .started = ∑ i, (c.locals i).body.granted := by
  have hcount := h.account_eq (v := fun sh => sh.counters .started) (u := fun _ => 0)
    (p := fun _ _ => 0) (q := fun _ t => t.body.granted) (by simp [granted_init]; rfl)
    fun c i e (hc : Runs cfg beginNs c) _ => by
      have hs := (hc.quotaStep hreq i e).count
      omega
  simpa using hcount

theorem Runs.sends_le_started (hreq : cfg.hasRequests = true) (h : Runs cfg beginNs c) :
    ∑ i, (c.locals i).body.sends ≤ c.shared.counters .started := by
  rw [h.started_eq_granted hreq]
  exact Finset.sum_le_sum fun i _ => (Nat.le_add_right _ _).trans (h.quotaInv hreq i).used

/-- **Request quota.** In requests mode `started_requests` never passes the quota, which is
`requests` whenever that is not negative. For any threads that call `AcquireRequestQuota` it is the
number of calls that succeeded, and a call is refused only once the quota is used up. The threads
of a run together issue no more requests than that. -/
theorem request_quota (cfg : Config) (hreq : cfg.hasRequests = true) :
    (0 ≤ cfg.requests → cfg.requests < 2 ^ 63 → (cfg.quota : ℤ) = cfg.requests) ∧
    (∀ (ι : Type) [DecidableEq ι] [Fintype ι] (c : Threads.Conf ι ℕ Caller),
      Reachable (callerStep cfg) (callers ι) c →
        c.shared ≤ cfg.quota ∧ c.shared = ∑ i, (c.locals i).succeeded ∧
          ∀ i, (c.locals i).refused ≠ 0 → c.shared = cfg.quota) ∧
    ∀ beginNs c, Runs cfg beginNs c →
      c.shared.counters .started ≤ cfg.quota ∧
        c.shared.counters .started = ∑ i, (c.locals i).body.granted ∧
        ∑ i, (c.locals i).body.sends ≤ cfg.quota := by
  refine ⟨fun h hmax => Config.quota_of_nonneg h hmax, fun ι _ _ c hc => quota_bound hreq hc,
    fun beginNs c hc => ?_⟩
  have hle := hc.started_le_quota hreq
  exact ⟨hle, hc.started_eq_granted hreq, (hc.sends_le_started hreq).trans hle⟩

/-! ## Two callers and a quota of one -/

def singleRequest : Config where
  requests := 1
  hasRequests := true

/-- Both callers load the counter, and the second exchange fails. -/
def twoCallers : Threads.Conf (Fin 2) ℕ Caller :=
  (callers (Fin 2)).run (callerStep singleRequest)
    [(0, false), (1, false), (0, false), (1, false), (0, false), (1, false), (1, false)]

theorem request_quota_two_callers :
    twoCallers.shared = 1 ∧ (twoCallers.locals 1).refused = 1 ∧
      (twoCallers.shared : ℤ) ≤ singleRequest.requests := by
  have hquota := request_quota singleRequest rfl
  have hle := (hquota.2.1 (Fin 2) twoCallers (reachable_run _)).1
  refine ⟨by decide, by decide, ?_⟩
  rw [← hquota.1 (by decide) (by decide)]
  exact_mod_cast hle

end Engine

end TitanBench
