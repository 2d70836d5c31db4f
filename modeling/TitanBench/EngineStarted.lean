import TitanBench.EngineQuota
import TitanBench.EngineStats

/-!
# Requests started

Every request a thread is granted is issued before the thread returns, in both modes. But
`AcquireRequestQuota` counts only in requests mode.

* `Body.Holds` — while a worker is between the quota and its `Send`, the session is there.
* `Move.spent` — a thread has issued what it was granted, but for the request in its hand.
* `Runs.sends_eq_granted` — once all workers have returned.
* `Runs.started_eq_zero` — the counter of a run without a number of requests.
* `reported_started_iff` — the main result.
-/

namespace TitanBench

open Threads

/-! ## What is granted is issued -/

/-- A worker on its way from the quota to `Send` has the session it picked. Without a number of
requests, it never gets to an exchange of the counter. -/
def Body.Holds (cfg : Config) : Body → Prop
  | .main _ => True
  | .event w =>
    match w.ctl with
    | .acquiring id pc _ _ =>
      (w.sessions.lookup id).isSome ∧ (cfg.hasRequests = false → pc = .load)
    | .waiting id _ _ _ | .sending id _ _ => (w.sessions.lookup id).isSome
    | _ => True
  | .slot s =>
    match s.ctl with
    | .acquiring pc => cfg.hasRequests = false → pc = .load
    | _ => True

section Places

variable {cfg : Config} {w : EventWorker} {s : Slot} {id now : ℕ} {todo : List ℕ}

theorem holds_acquiring {pc : QuotaPc} (hc : w.ctl = .acquiring id pc now todo)
    (h : (Body.event w).Holds cfg) :
    (w.sessions.lookup id).isSome ∧ (cfg.hasRequests = false → pc = .load) := by
  simpa only [Body.Holds, hc] using h

theorem holds_waiting {pc : RatePc} (hc : w.ctl = .waiting id pc now todo)
    (h : (Body.event w).Holds cfg) : (w.sessions.lookup id).isSome := by
  simpa only [Body.Holds, hc] using h

theorem holds_sending (hc : w.ctl = .sending id now todo) (h : (Body.event w).Holds cfg) :
    (w.sessions.lookup id).isSome := by
  simpa only [Body.Holds, hc] using h

theorem holds_slotAcquiring {pc : QuotaPc} (hc : s.ctl = .acquiring pc)
    (h : (Body.slot s).Holds cfg) : cfg.hasRequests = false → pc = .load := by
  simpa only [Body.Holds, hc] using h

end Places

namespace Engine

variable {cfg : Config} {n : ℕ} {env : Env} {sh : Shared n} {i : Fin n}

/-- What a thread was granted it has issued or is about to issue. -/
structure Spent (cfg : Config) (body : Body) : Prop where
  holds : body.Holds cfg
  used : body.sends + body.inHand = body.granted

/-- The call that goes on does so only in requests mode. -/
theorem quotaStep_load {spurious : Bool} {started started' : ℕ} {pc pc' : QuotaPc}
    (hload : cfg.hasRequests = false → pc = .load)
    (h : quotaStep cfg spurious started pc = (started', .inl pc')) (hno : cfg.hasRequests = false) :
    pc' = .load := by
  rw [hload hno] at h
  simp [quotaStep, hno] at h

/-- A step between places where nothing is in hand. -/
theorem Spent.frame {body body' : Body} (h : Spent cfg body) (hholds : body'.Holds cfg)
    (hsends : body'.sends = body.sends) (hgranted : body'.granted = body.granted)
    (hhand : body'.inHand = body.inHand) : Spent cfg body' := by
  refine ⟨hholds, ?_⟩
  rw [hsends, hgranted, hhand]
  exact h.used

theorem spent_event {w : EventWorker} {r : Shared n × List Op × EventWorker}
    (hm : w.Move cfg i env sh r) (h : Spent cfg (.event w)) : Spent cfg (.event r.2.2) := by
  have hholds := h.holds
  have hused : w.sends + (Body.event w).inHand = w.granted := h.used
  cases hm with
  | goes hg =>
    cases hg with
    | enter hc | sweep _ _ hc | swept hc | skip hc | handled hc | unknown hc | stay hc =>
      exact h.frame trivial rfl rfl (by simp [Body.inHand, hc, EventWorker.goto])
    | pick hc hl =>
      refine h.frame ⟨?_, fun _ => rfl⟩ rfl rfl (by simp [Body.inHand, hc, EventWorker.goto])
      show (w.sessions.lookup _).isSome
      rw [hl]
      rfl
    | gone hc hl =>
      have hsome := holds_sending hc hholds
      rw [hl] at hsome
      cases hsome
  | stopped hc => exact h.frame trivial rfl rfl (by simp [Body.inHand, hc, EventWorker.goto])
  | started hc | notStarted hc | polled hc | pollFailed hc | errored hc | received hc | closed hc =>
    exact h.frame trivial rfl rfl (by simp [Body.inHand, hc, EventWorker.closeAll])
  | opened session hopens =>
    generalize hc : w.ctl = ctl at hopens
    cases hopens <;> exact h.frame trivial rfl rfl (by simp [Body.inHand, hc])
  | notOpened hopens =>
    generalize hc : w.ctl = ctl at hopens
    cases hopens <;> exact h.frame trivial rfl rfl (by simp [Body.inHand, hc])
  | acquires hc hq =>
    obtain ⟨hsome, hload⟩ := holds_acquiring hc hholds
    exact h.frame ⟨hsome, quotaStep_load hload hq⟩ rfl rfl
      (by simp [Body.inHand, hc, EventWorker.goto])
  | refused hc => exact h.frame trivial rfl rfl (by simp [Body.inHand, hc, EventWorker.goto])
  | granted hc =>
    refine ⟨(holds_acquiring hc hholds).1, ?_⟩
    have hzero : (Body.event w).inHand = 0 := by simp [Body.inHand, hc]
    show w.sends + 1 = w.granted + 1
    omega
  | waits token hc | waited token hc =>
    have hsome := holds_waiting hc hholds
    exact h.frame hsome rfl rfl (by simp [Body.inHand, hc, EventWorker.goto])
  | sent hc | requested hc | sendFailed hc =>
    rw [inHand_sending hc] at hused
    exact ⟨trivial, hused⟩
  | retried hc | givenUp hc | returned hc =>
    exact h.frame trivial rfl rfl (by simp [Body.inHand, hc, EventWorker.goto])

theorem spent_slot {s : Slot} {r : Shared n × List Op × Slot} (hm : s.Move cfg i env sh r)
    (h : Spent cfg (.slot s)) : Spent cfg (.slot r.2.2) := by
  have hholds := h.holds
  have hused : s.sends + (Body.slot s).inHand = s.granted := h.used
  cases hm with
  | goes hg =>
    cases hg with
    | stopped hc | enter hc | stay hc =>
      exact h.frame trivial rfl rfl (by simp [Body.inHand, hc, Slot.goto])
  | started _ hc | notStarted _ hc | retried _ hc | gaveUp _ hc =>
    exact h.frame trivial rfl rfl (by simp [Body.inHand, hc])
  | connected _ hc => exact h.frame (fun _ => rfl) rfl rfl (by simp [Body.inHand, hc])
  | acquires hc hq =>
    exact h.frame (quotaStep_load (holds_slotAcquiring hc hholds) hq) rfl rfl
      (by simp [Body.inHand, hc, Slot.goto])
  | refused hc => exact h.frame trivial rfl rfl (by simp [Body.inHand, hc, Slot.goto])
  | granted hc =>
    have hzero : (Body.slot s).inHand = 0 := by simp [Body.inHand, hc]
    refine ⟨trivial, ?_⟩
    show s.sends + 1 = s.granted + 1
    omega
  | waits _ hc | waited _ hc =>
    exact h.frame trivial rfl rfl (by simp [Body.inHand, hc, Slot.goto])
  | performed client result status ok retry hc =>
    rw [inHand_performing hc] at hused
    exact ⟨trivial, hused⟩
  | returned hc => exact h.frame trivial rfl rfl (by simp [Body.inHand, hc, Slot.goto])

theorem Move.spent {i : Option (Fin n)} {t : Thread} {r : Shared n × Thread}
    (hm : Move cfg env sh i t r) (h : Spent cfg t.body) : Spent cfg r.2.body := by
  cases hm with
  | op => exact h
  | main hr => exact ⟨trivial, rfl⟩
  | event hm => exact spent_event hm h
  | slot hm => exact spent_slot hm h
  | stay => exact h

variable {beginNs : ℕ} {c : Conf cfg.threadCount}

theorem Runs.spent (h : Runs cfg beginNs c) (i : Option (Fin cfg.threadCount)) :
    Spent cfg (c.locals i).body := by
  refine h.local_invariant (J := fun t => Spent cfg t.body) i ?_ ?_
  · cases i with
    | none => exact ⟨trivial, rfl⟩
    | some i =>
      show Spent cfg (initialBody cfg i)
      unfold initialBody
      split_ifs <;> exact ⟨trivial, rfl⟩
  · intro c e _ _ ht
    exact (step_move cfg i e c.shared (c.locals i)).spent ht

theorem inHand_exited {body : Body} (h : body.Exited) : body.inHand = 0 := by
  cases body with
  | main m => rfl
  | event w => simp [Body.inHand, show w.ctl = .exited from h]
  | slot s => simp [Body.inHand, show s.ctl = .exited from h]

/-- Once all workers have returned, the requests granted are the requests issued. -/
theorem Runs.sends_eq_granted (h : Runs cfg beginNs c)
    (hall : ∀ i, c.shared.running i = false) :
    ∑ i, (c.locals i).body.sends = ∑ i, (c.locals i).body.granted := by
  refine Finset.sum_congr rfl fun i _ => ?_
  have hspent := (h.spent i).used
  have hhand : (c.locals i).body.inHand = 0 := by
    cases i with
    | none =>
      obtain ⟨m, hm⟩ := h.main_body
      rw [hm]
      rfl
    | some i => exact inHand_exited (h.exited i (hall i)).2
  omega

/-! ## The counter -/

/-- Without a number of requests, the quota is granted and not counted. -/
theorem quotaStep_uncounted {spurious : Bool} {started started' : ℕ} {pc : QuotaPc}
    {result : QuotaPc ⊕ Bool} (hno : cfg.hasRequests = false) (hload : pc = .load)
    (h : quotaStep cfg spurious started pc = (started', result)) : started' = started := by
  subst hload
  simp only [quotaStep, hno, if_true, Prod.mk.injEq] at h
  exact h.1.symm

theorem started_set {started : ℕ} (h : started = sh.counters .started) :
    (sh.set .started started).counters .started = sh.counters .started := by
  rw [Shared.set_counters, if_pos rfl, h]

theorem Move.started_same (hno : cfg.hasRequests = false) {i : Option (Fin n)} {t : Thread}
    {r : Shared n × Thread} (hm : Move cfg env sh i t r) (hbody : t.body.Holds cfg)
    (howed : owed .started t.ops = 0) :
    r.1.counters .started = sh.counters .started ∧ owed .started r.2.ops = 0 := by
  cases hm with
  | op body hx =>
    have hpays := hx.pays .started
    have hle := hx.counters_le .started
    dsimp only at howed ⊢
    omega
  | @main m r hr =>
    have hf := mainStep_frame cfg env sh m
    rw [← hr] at hf
    rw [hf.counters]
    refine ⟨rfl, ?_⟩
    rcases hf.ops with hops | hops <;> rw [hops] <;> rfl
  | event hm =>
    refine ⟨?_, owed_started_event hm⟩
    cases hm with
    | acquires hc hq | refused hc hq | granted hc hq =>
      exact started_set (quotaStep_uncounted hno ((holds_acquiring hc hbody).2 hno) hq)
    | _ => rfl
  | slot hm =>
    refine ⟨?_, owed_started_slot hm⟩
    cases hm with
    | acquires hc hq | refused hc hq | granted hc hq =>
      exact started_set (quotaStep_uncounted hno (holds_slotAcquiring hc hbody hno) hq)
    | _ => rfl
  | stay => exact ⟨rfl, rfl⟩

/-- Without a number of requests, nothing is counted. -/
theorem Runs.started_eq_zero (hno : cfg.hasRequests = false) (h : Runs cfg beginNs c) :
    c.shared.counters .started = 0 := by
  have howed : ∀ c, Runs cfg beginNs c → ∀ i, owed .started (c.locals i).ops = 0 := by
    intro c hc i
    refine hc.local_invariant (J := fun t => owed .started t.ops = 0) i ?_ ?_
    · cases i <;> rfl
    · intro c e hc _ ht
      have hruns : Runs cfg beginNs c := hc
      exact ((step_move cfg i e c.shared _).started_same hno (hruns.spent i).holds ht).2
  refine h.shared (K := fun sh => sh.counters .started = 0) rfl ?_
  intro c i e hc _ hzero
  have hruns : Runs cfg beginNs c := hc
  rw [((step_move cfg i e c.shared _).started_same hno (hruns.spent i).holds (howed c hc i)).1,
    hzero]

/-! ## Main result -/

/-- **The report shows the requests issued exactly in requests mode.** In a finished run
`started_requests` is the number of calls of `Send` and `PerformHttpGet` if the run has a number
of requests, or issued none. -/
theorem reported_started_iff (h : Runs cfg beginNs c) {m : Main}
    (hm : (c.locals none).body = .main m) (hdone : m.ctl = .done) :
    m.report.counters .started = ∑ i, (c.locals i).body.sends ↔
      cfg.hasRequests = true ∨ ∑ i, (c.locals i).body.sends = 0 := by
  have hclosed := h.closed hm hdone
  rw [hclosed.counters .started]
  cases hreq : cfg.hasRequests with
  | true =>
    rw [h.started_eq_granted hreq, h.sends_eq_granted hclosed.joined]
    exact iff_of_true rfl (.inl rfl)
  | false =>
    rw [h.started_eq_zero hreq]
    constructor
    · exact fun hzero => .inr hzero.symm
    · rintro (hfalse | hzero)
      · cases hfalse
      · exact hzero.symm

/-- One udp request of a requests-mode run. -/
theorem reported_started_iff_udp :
    ∃ m, (udpRun.locals none).body = .main m ∧
      (m.report.counters .started = ∑ i, (udpRun.locals i).body.sends ↔
        oneUdpRequest.hasRequests = true ∨ ∑ i, (udpRun.locals i).body.sends = 0) := by
  have hrun : Runs oneUdpRequest 0 udpRun := reachable_run _
  obtain ⟨m, hm⟩ := hrun.main_body
  have hdone : (udpRun.locals none).body.mainCtl = some .done := by decide +kernel
  rw [hm] at hdone
  exact ⟨m, hm, reported_started_iff hrun hm (Option.some.inj hdone)⟩

/-! ## A run of one second -/

def oneUdpSecond : Config where
  concurrency := 1
  durationSeconds := 1
  protocol := .udp
  host := ascii "localhost"
  port := 53
  hasDuration := true

/-- The worker sends a request; then the second is over, the main thread stops the run, joins the
worker and makes its report. -/
def udpSecond : Conf oneUdpSecond.threadCount :=
  let worker : Option (Fin oneUdpSecond.threadCount) × Env := (some ⟨0, by decide⟩, {})
  let main : Option (Fin oneUdpSecond.threadCount) × Env := (none, { nowNs := 1000000000 })
  (init oneUdpSecond 0).run (step oneUdpSecond)
    (List.replicate 16 worker ++ List.replicate 4 main ++ List.replicate 40 worker
      ++ List.replicate 60 main)

/-- Requests are sent, and none is reported as started. -/
theorem started_unreported :
    ¬ ∀ c, Runs oneUdpSecond 0 c → ∀ m, (c.locals none).body = .main m → m.ctl = .done →
      m.report.counters .started = ∑ i, (c.locals i).body.sends := by
  intro h
  have hrun : Runs oneUdpSecond 0 udpSecond := reachable_run _
  obtain ⟨m, hm⟩ := hrun.main_body
  have hdone : (udpSecond.locals none).body.mainCtl = some .done := by decide +kernel
  rw [hm] at hdone
  have hreport := h udpSecond hrun m hm (Option.some.inj hdone)
  rw [(hrun.closed hm (Option.some.inj hdone)).counters .started,
    hrun.started_eq_zero rfl] at hreport
  exact absurd hreport (by decide +kernel)

end Engine

end TitanBench
