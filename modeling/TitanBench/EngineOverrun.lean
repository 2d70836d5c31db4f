import TitanBench.EngineSessions

/-!
# Requests after the stop

The stop is read once in each iteration of a worker's loop. A worker in the middle of its sweep goes
on to send on every session it has not visited yet, and a slot sends once more.

* `Body.pending` — the requests a thread may still issue before it looks at the stop again.
* `Runs.pending_le` — no more than the thread's share of the connections.
* `requests_after_stop` — the main result.
-/

namespace TitanBench

open Threads

variable {n : ℕ}

/-! ## What is pending -/

/-- The sessions the send loop has still to visit. -/
def EventCtl.pending : EventCtl → ℕ
  | .visiting _ todo => todo.length
  | .acquiring _ _ _ todo | .waiting _ _ _ todo | .sending _ _ todo => todo.length + 1
  | _ => 0

def SlotCtl.pending : SlotCtl → ℕ
  | .connecting | .acquiring _ | .waiting _ | .performing => 1
  | _ => 0

/-- The requests the thread may still issue before it looks at the stop again. -/
def Body.pending : Body → ℕ
  | .main _ => 0
  | .event w => w.ctl.pending
  | .slot s => s.ctl.pending

/-- The connections worker `i` is responsible for. -/
def Config.share (cfg : Config) (i : ℕ) : ℕ :=
  if cfg.protocol = .https then 1 else cfg.perWorker i

theorem Config.sum_share (cfg : Config) :
    ∑ i : Fin cfg.threadCount, cfg.share i = cfg.concurrency.toNat := by
  unfold Config.share
  split_ifs with hp
  · have hthreads : cfg.threadCount = cfg.concurrency.toNat := if_pos hp
    simp [hthreads]
  · have hthreads : cfg.threadCount = cfg.workers := if_neg hp
    rw [hthreads]
    exact cfg.sum_perWorker

section Step

variable {cfg : Config} {i : Fin n} {env : Env} {sh : Shared n}

/-- A step of a worker that is not at the top of its loop. -/
theorem EventWorker.Move.pending {w : EventWorker} {r : Shared n × List Op × EventWorker}
    (hm : w.Move cfg i env sh r) (htop : w.ctl ≠ .loopTop) :
    r.2.2.sends + r.2.2.ctl.pending ≤ w.sends + w.ctl.pending ∧
      r.2.2.ctl.pending ≤ w.ctl.pending := by
  cases hm with
  | goes hg =>
    cases hg with
    | sweep now todo hc => exact absurd hc htop
    | enter hc | swept hc | skip hc | pick hc | gone hc | handled hc | unknown hc | stay hc =>
      simp [goto, hc, EventCtl.pending]
  | stopped hc => exact absurd hc htop
  | opened session hopens =>
    rcases hopens.next with ⟨left, rfl⟩ | ⟨events, rfl⟩ <;> simp [EventCtl.pending]
  | notOpened => simp [EventCtl.pending]
  | waits _ hc | waited _ hc => simp [goto, hc, EventCtl.pending]
  | sent hc | requested hc | sendFailed hc =>
    simp only [hc, EventCtl.pending]
    omega
  | started hc | notStarted hc | acquires hc | refused hc | granted hc | polled hc | pollFailed hc
  | errored hc | received hc | retried hc | givenUp hc | closed hc | returned hc =>
    simp [goto, closeAll, hc, EventCtl.pending]

theorem eventStep_loopTop {w : EventWorker} (hc : w.ctl = .loopTop) :
    eventStep cfg i env sh w = (sh, [], w.goto
      (if sh.stop then .closing else .visiting env.nowNs (w.sessions.visit env.order))) := by
  unfold eventStep
  rw [hc]
  dsimp only
  split_ifs <;> rfl

/-- The sweep visits each session once. -/
theorem eventStep_pending {share : ℕ} {w : EventWorker} (hw : w.Seated share)
    (h : w.ctl.pending ≤ share) : (eventStep cfg i env sh w).2.2.ctl.pending ≤ share := by
  by_cases hc : w.ctl = .loopTop
  · rw [eventStep_loopTop hc]
    have hcount := hw.count
    have hvisit := (w.sessions.visit_perm env.order).length_eq
    simp only [EventWorker.goto]
    split_ifs
    · exact Nat.zero_le _
    · simp only [EventCtl.pending]
      omega
  · exact ((EventWorker.eventStep_move cfg i env sh w).pending hc).2.trans h

theorem eventStep_sends {w : EventWorker} (hstop : sh.stop = true) :
    (eventStep cfg i env sh w).2.2.sends + (eventStep cfg i env sh w).2.2.ctl.pending
      ≤ w.sends + w.ctl.pending := by
  by_cases hc : w.ctl = .loopTop
  · rw [eventStep_loopTop hc, if_pos hstop]
    simp [EventWorker.goto, EventCtl.pending]
  · exact ((EventWorker.eventStep_move cfg i env sh w).pending hc).1

theorem SlotCtl.pending_le (ctl : SlotCtl) : ctl.pending ≤ 1 := by
  cases ctl <;> simp [SlotCtl.pending]

theorem slotStep_sends {s : Slot} (hstop : sh.stop = true) :
    (slotStep cfg i env sh s).2.2.sends + (slotStep cfg i env sh s).2.2.ctl.pending
      ≤ s.sends + s.ctl.pending := by
  by_cases hc : s.ctl = .loopTop
  · have hstep : slotStep cfg i env sh s = (sh, [], s.goto .returning) := by
      unfold slotStep
      rw [hc]
      exact if_pos hstop
    rw [hstep]
    simp [Slot.goto, SlotCtl.pending]
  · have hm := Slot.slotStep_move cfg i env sh s
    generalize slotStep cfg i env sh s = r at hm
    cases hm with
    | goes hg =>
      cases hg with
      | stopped hctl | enter hctl => exact absurd hctl hc
      | stay hctl => simp [Slot.goto, hctl, SlotCtl.pending]
    | acquires hctl | refused hctl | granted hctl | returned hctl =>
      simp [Slot.goto, hctl, SlotCtl.pending]
    | started _ hctl | notStarted _ hctl | connected _ hctl | retried _ hctl | gaveUp _ hctl
    | waits _ hctl | waited _ hctl =>
      simp [Slot.goto, hctl, SlotCtl.pending]
    | performed _ _ _ _ _ hctl => simp [hctl, SlotCtl.pending]

end Step

/-! ## Runs -/

namespace Engine

variable {cfg : Config} {beginNs : ℕ} {c c' : Conf cfg.threadCount}

/-- An event-driven worker is part of a run without https, and has no more pending than its
sessions. -/
theorem Runs.event_pending (h : Runs cfg beginNs c) (i : Fin cfg.threadCount) {w : EventWorker}
    (hbody : (c.locals (some i)).body = .event w) :
    cfg.protocol ≠ .https ∧ w.ctl.pending ≤ cfg.perWorker i := by
  refine h.local_invariant (J := fun t => ∀ w, t.body = .event w →
    cfg.protocol ≠ .https ∧ w.ctl.pending ≤ cfg.perWorker i) (some i) ?_ ?_ w hbody
  · intro w hbody
    have hinit : initialBody cfg i = .event w := hbody
    unfold initialBody at hinit
    split_ifs at hinit with hp
    · cases hinit
      exact ⟨hp, Nat.zero_le _⟩
    · cases hinit
      exact ⟨hp, Nat.zero_le _⟩
  · intro c e hc _ ht w hbody
    have hruns : Runs cfg beginNs c := hc
    have hseated := hruns.seated i
    generalize c.locals (some i) = t at ht hbody hseated
    obtain ⟨ops, body⟩ := t
    cases ops with
    | cons op rest => exact ht w hbody
    | nil =>
      cases body with
      | event old =>
        cases hbody
        exact ⟨(ht old rfl).1, eventStep_pending hseated (ht old rfl).2⟩
      | _ => cases hbody

/-- No thread has more pending than its share of the connections. -/
theorem Runs.pending_le (h : Runs cfg beginNs c) (i : Fin cfg.threadCount) :
    (c.locals (some i)).body.pending ≤ cfg.share i := by
  unfold Config.share
  cases hbody : (c.locals (some i)).body with
  | main m => exact Nat.zero_le _
  | event w =>
    obtain ⟨hp, hle⟩ := h.event_pending i hbody
    rwa [if_neg hp]
  | slot s =>
    have hp : cfg.protocol = .https := by
      by_contra hp
      exact h.not_slot hp (some i) s hbody
    rw [if_pos hp]
    exact s.ctl.pending_le

/-- Once the stop is set, what a thread issues was pending. -/
theorem step_sends {n : ℕ} {sh : Shared n} (hstop : sh.stop = true) (cfg : Config)
    (i : Option (Fin n)) (e : Env) (t : Thread) :
    (step cfg i e sh t).2.body.sends + (step cfg i e sh t).2.body.pending
      ≤ t.body.sends + t.body.pending := by
  obtain ⟨ops, body⟩ := t
  cases ops with
  | cons op rest => exact le_rfl
  | nil =>
    cases i with
    | none => cases body <;> exact le_rfl
    | some i =>
      cases body with
      | main m => exact le_rfl
      | event w => exact eventStep_sends hstop
      | slot s => exact slotStep_sends hstop

/-- **Requests after the stop.** Whatever happens once the stop is set, each worker issues at most
as many requests as it has connections, and all workers together at most as many as the run has. -/
theorem requests_after_stop (cfg : Config) {beginNs : ℕ} {c c' : Conf cfg.threadCount}
    (h : Runs cfg beginNs c) (hstop : c.shared.stop = true) (h' : Reachable (step cfg) c c') :
    (∀ i : Fin cfg.threadCount,
      (c'.locals (some i)).body.sends ≤ (c.locals (some i)).body.sends + cfg.share i) ∧
    ∑ i : Fin cfg.threadCount, (c'.locals (some i)).body.sends
      ≤ ∑ i : Fin cfg.threadCount, (c.locals (some i)).body.sends + cfg.concurrency.toNat := by
  have hstopped : ∀ c', Reachable (step cfg) c c' → c'.shared.stop = true := fun c' h' =>
    h'.shared (K := fun sh => sh.stop = true) hstop
      fun c i e _ _ => (step_move cfg i e c.shared (c.locals i)).stop_mono
  have heach : ∀ i : Fin cfg.threadCount,
      (c'.locals (some i)).body.sends ≤ (c.locals (some i)).body.sends + cfg.share i := by
    intro i
    have hpaid : (c'.locals (some i)).body.sends + (c'.locals (some i)).body.pending
        ≤ (c.locals (some i)).body.sends + (c.locals (some i)).body.pending :=
      h'.local_invariant (J := fun t => t.body.sends + t.body.pending
        ≤ (c.locals (some i)).body.sends + (c.locals (some i)).body.pending) (some i) le_rfl
        fun c'' e hc'' _ => (step_sends (hstopped c'' hc'') cfg (some i) e _).trans
    have hpending := h.pending_le i
    omega
  refine ⟨heach, ?_⟩
  calc ∑ i : Fin cfg.threadCount, (c'.locals (some i)).body.sends
      ≤ ∑ i : Fin cfg.threadCount, ((c.locals (some i)).body.sends + cfg.share i) :=
        Finset.sum_le_sum fun i _ => heach i
    _ = _ := by rw [Finset.sum_add_distrib, cfg.sum_share]

/-! ## A stop in the middle of a sweep -/

def twoUdp : Config where
  protocol := .udp
  host := ascii "localhost"
  port := 53
  concurrency := 2
  durationSeconds := 1
  hasDuration := true

theorem twoUdp_worker : 0 < twoUdp.threadCount := by decide

/-- The worker has begun its sweep of two sessions when the second is over. -/
def stoppedInSweep : Conf twoUdp.threadCount :=
  let worker : Option (Fin twoUdp.threadCount) × Env := (some ⟨0, twoUdp_worker⟩, {})
  let main : Option (Fin twoUdp.threadCount) × Env := (none, { nowNs := 1000000000 })
  (init twoUdp 0).run (step twoUdp) (List.replicate 5 worker ++ List.replicate 3 main)

def sweptAfterStop : Conf twoUdp.threadCount :=
  stoppedInSweep.run (step twoUdp) (List.replicate 40 (some ⟨0, twoUdp_worker⟩, {}))

theorem requests_after_stop_sweep :
    (stoppedInSweep.locals (some ⟨0, twoUdp_worker⟩)).body.sends = 0 ∧
      (sweptAfterStop.locals (some ⟨0, twoUdp_worker⟩)).body.sends = 2 ∧
      ∑ i : Fin twoUdp.threadCount, (sweptAfterStop.locals (some i)).body.sends
        ≤ ∑ i : Fin twoUdp.threadCount, (stoppedInSweep.locals (some i)).body.sends
          + twoUdp.concurrency.toNat := by
  have hrun : Runs twoUdp 0 stoppedInSweep := reachable_run _
  exact ⟨by decide +kernel, by decide +kernel,
    (requests_after_stop twoUdp hrun (by decide +kernel) (reachable_run _)).2⟩

end Engine

end TitanBench
