import TitanBench.EngineRetry

/-!
# Backoff

A session that is created again after an error waits before it sends its next request: the send loop
passes over it until a pass begins at or after `retryAtNs`.

**The log** of a worker are its `RetryMark`s. Nothing is marked between an error event and the
session being created again, so in the log the two stand next to each other. `Paced` ties the
sessions of a worker to its log.

Main result: `retry_budget`, which also bounds the retries.
-/

namespace TitanBench

open Threads

/-- The clock never goes back. -/
def Steady (log : List RetryMark) : Prop := (log.map RetryMark.ns).Pairwise (· ≤ ·)

/-- A request on a session with retries: the session was created again after the error that made its
retry count, and the request is sent no earlier than the backoff after that error. -/
def Backed (log : List RetryMark) : Prop :=
  ∀ before id retries ns after, log = before ++ .sent id (retries + 1) ns :: after →
    ∃ l l' old failedNs reopenedNs,
      before = l ++ .failed old retries failedNs :: .reopened id (retries + 1) reopenedNs :: l' ∧
        failedNs + backoffNs (retries + 1) ≤ ns

theorem Steady.le {before after : List RetryMark} {m m' : RetryMark}
    (h : Steady (before ++ m :: after)) (hm : m' ∈ before) : m'.ns ≤ m.ns := by
  unfold Steady at h
  rw [List.map_append, List.map_cons, List.pairwise_append] at h
  exact h.2.2 _ (List.mem_map_of_mem hm) _ List.mem_cons_self

namespace EventWorker

variable {cfg : Config} {env : Env} {w w' : EventWorker} {share : ℕ} {log ms : List RetryMark}
  {ops : List Op}

/-- The session under `id` waits for the backoff of its last retry. -/
def Delayed (log : List RetryMark) (id : ℕ) (s : Session) : Prop :=
  ∀ retries, s.retries = retries + 1 → ∃ l l' old failedNs reopenedNs,
    log = l ++ .failed old retries failedNs :: .reopened id (retries + 1) reopenedNs :: l' ∧
      s.retryAtNs = reopenedNs + backoffNs (retries + 1)

/-- What the log of a worker says of its sessions. -/
structure Paced (w : EventWorker) (log : List RetryMark) : Prop where
  sessions : w.sessions.All (Delayed log)
  retrying : ∀ old events, w.ctl = .retrying old events →
    ∃ l id ns, log = l ++ [.failed id old.retries ns]
  reconnecting : ∀ old events, w.ctl = .reconnecting old events →
    ∃ l id retries ns, old.retries = retries + 1 ∧ log = l ++ [.failed id retries ns]
  pass : ∀ now ∈ w.ctl.pass, .swept now ∈ log
  picked : ∀ id ∈ w.picked, ∀ now ∈ w.ctl.pass,
    ∃ s, w.sessions.lookup id = some s ∧ s.retryAtNs ≤ now

theorem Delayed.append {id : ℕ} {s : Session} (h : Delayed log id s) (ms : List RetryMark) :
    Delayed (log ++ ms) id s := by
  intro retries hr
  obtain ⟨l, l', old, failedNs, reopenedNs, hlog, hat⟩ := h retries hr
  refine ⟨l, l' ++ ms, old, failedNs, reopenedNs, ?_, hat⟩
  rw [hlog, List.append_assoc]
  rfl

theorem Delayed.congr {id : ℕ} {s s' : Session} (h : Delayed log id s)
    (hr : s'.retries = s.retries) (hat : s'.retryAtNs = s.retryAtNs) : Delayed log id s' := by
  intro retries hretries
  rw [hat]
  exact h retries (hr.symm.trans hretries)

theorem delayed_of_zero {id : ℕ} {s : Session} (h : s.retries = 0) : Delayed log id s := by
  intro retries hr
  rw [h] at hr
  cases hr

/-- Nothing is in hand and nothing is picked. -/
theorem paced_of_free (hs : w.sessions.All (Delayed log)) (hh : w.ctl.held = none)
    (hp : ∀ now ∈ w.ctl.pass, .swept now ∈ log) (hk : w.picked = none) : w.Paced log := by
  refine ⟨hs, fun old events hc => ?_, fun old events hc => ?_, hp, fun id hid => ?_⟩
  · rw [hc] at hh
    cases hh
  · rw [hc] at hh
    cases hh
  · rw [hk] at hid
    cases hid

/-- **One step.** The log goes on to say of each session what it waits for. -/
theorem Tries.paced (h : Tries share env w ms ops w') (hp : w.Paced log)
    (hkeyed : w.sessions.All fun id s => s.connId = id) : w'.Paced (log ++ ms) := by
  have hold : w.sessions.All (Delayed (log ++ ms)) :=
    fun id s hl => (hp.sessions id s hl).append ms
  cases h with
  | stays _ hs hh _ hpass hpicked =>
    have hpass' : ∀ now ∈ w'.ctl.pass, now ∈ w.ctl.pass := by
      intro now hnow
      rcases hpass with hno | hsame
      · rw [hno] at hnow
        cases hnow
      · rw [← hsame]
        exact hnow
    refine ⟨?_, fun old events hc => ?_, fun old events hc => ?_, fun now hnow => ?_,
      fun id hid now hnow => ?_⟩
    · rw [hs]
      exact hold
    · rw [hc] at hh
      cases hh
    · rw [hc] at hh
      cases hh
    · exact List.mem_append_left _ (hp.pass now (hpass' now hnow))
    · rw [hs]
      rcases hpicked with hno | hsame
      · rw [hno] at hid
        cases hid
      · rw [hsame] at hid
        exact hp.picked id hid now (hpass' now hnow)
  | sweeps todo _ =>
    refine paced_of_free hold rfl (fun now hnow => ?_) rfl
    cases hnow
    exact List.mem_append_right _ (List.mem_singleton_self _)
  | @picks id now todo s hc hl hdue =>
    refine ⟨hold, fun old events hctl => (by cases hctl), fun old events hctl => (by cases hctl),
      fun now' hnow => ?_, fun id' hid now' hnow => ?_⟩
    · cases hnow
      exact List.mem_append_left _ (hp.pass now (by rw [hc]; rfl))
    · cases hid
      cases hnow
      exact ⟨s, hl, hdue⟩
  | creates _ hs hzero hc' =>
    refine paced_of_free ?_ (by rw [hc']; rfl) (by rw [hc']; intro now hnow; cases hnow)
      (by simp [EventWorker.picked, hc'])
    rw [hs]
    exact hold.insert (delayed_of_zero hzero)
  | @reopens old s events id _ hc hs hsame hat hc' =>
    refine paced_of_free ?_ (by rw [hc']; rfl) (by rw [hc']; intro now hnow; cases hnow)
      (by simp [EventWorker.picked, hc'])
    rw [hs]
    refine hold.insert fun retries hretries => ?_
    obtain ⟨l, failed, retries', failedNs, hr, hlog⟩ := hp.reconnecting old events hc
    obtain rfl : retries = retries' := by omega
    refine ⟨l, [], failed, failedNs, env.nowNs, ?_, ?_⟩
    · rw [hlog, hr, List.append_assoc]
      rfl
    · rw [hat, hr]
  | @requests id now todo s s' _ _ _ hc hl _ hs hsame hat hc' =>
    refine paced_of_free ?_ (by rw [hc']; rfl) (fun now' hnow => ?_)
      (by simp [EventWorker.picked, hc'])
    · rw [hs]
      exact hold.insert ((hold id s hl).congr hsame hat)
    · rw [hc'] at hnow
      cases hnow
      exact List.mem_append_left _ (hp.pass now (by rw [hc]; rfl))
  | @errs ev events old _ _ hc hl _ hs hc' =>
    refine ⟨?_, fun old' events' hctl => ?_, fun old' events' hctl => ?_, ?_, ?_⟩
    · rw [hs]
      exact hold.erase _
    · rw [hc'] at hctl
      cases hctl
      exact ⟨log, ev.connId, env.nowNs, rfl⟩
    · rw [hc'] at hctl
      cases hctl
    · rw [hc']
      intro now hnow
      cases hnow
    · simp [EventWorker.picked, hc']
  | @digests ev events old s _ _ hc hl _ hid hat hretries hs hc' =>
    refine paced_of_free ?_ (by rw [hc']; rfl) (by rw [hc']; intro now hnow; cases hnow)
      (by simp [EventWorker.picked, hc'])
    rw [hs]
    refine (hold.erase _).insert ?_
    rcases hretries with hsame | ⟨hzero, -⟩
    · rw [hid.trans (hkeyed _ _ hl)]
      exact (hold _ _ hl).congr hsame hat
    · exact delayed_of_zero hzero
  | @retries old events hc _ =>
    refine ⟨hold, fun old' events' hctl => (by cases hctl), fun old' events' hctl => ?_,
      fun now hnow => (by cases hnow), fun id hid => (by cases hid)⟩
    cases hctl
    obtain ⟨l, id, ns, hlog⟩ := hp.retrying old events hc
    exact ⟨l, id, old.retries, ns, rfl, by rw [hlog, List.append_nil]⟩

theorem singleton_eq_append {m x : RetryMark} {before after : List RetryMark}
    (h : [m] = before ++ x :: after) : before = [] ∧ m = x := by
  cases before with
  | nil => exact ⟨rfl, (List.cons.inj h).1⟩
  | cons y before => exact absurd (List.cons.inj h).2 (by simp)

/-- A request is sent on a session that was picked. -/
theorem marks_sent {id retries ns : ℕ} {before after : List RetryMark}
    (h : w.marks cfg env = before ++ .sent id retries ns :: after) :
    before = [] ∧ ns = env.nowNs ∧ ∃ now todo s, w.ctl = .sending id now todo ∧
      w.sessions.lookup id = some s ∧ retries = s.retries := by
  have hempty : [] ≠ before ++ RetryMark.sent id retries ns :: after := by simp
  have hother : ∀ m, [m] = before ++ .sent id retries ns :: after → m = .sent id retries ns :=
    fun m hm => (singleton_eq_append hm).2
  unfold marks at h
  cases hc : w.ctl with
  | loopTop =>
    rw [hc] at h
    cases hother _ h
  | sending k now todo =>
    rw [hc] at h
    dsimp only at h
    cases hl : w.sessions.lookup k with
    | none =>
      rw [hl] at h
      exact absurd h hempty
    | some s =>
      rw [hl] at h
      obtain ⟨hbefore, hmark⟩ := singleton_eq_append h
      cases hmark
      exact ⟨hbefore, rfl, now, todo, s, rfl, hl, rfl⟩
  | handling events =>
    rw [hc] at h
    cases events with
    | nil => exact absurd h hempty
    | cons ev events =>
      dsimp only at h
      split_ifs at h
      · cases hl : w.sessions.lookup ev.connId with
        | none =>
          rw [hl] at h
          exact absurd h hempty
        | some s =>
          rw [hl] at h
          cases hother _ h
      · exact absurd h hempty
  | reconnecting old events =>
    rw [hc] at h
    dsimp only at h
    split_ifs at h
    · cases hother _ h
    · exact absurd h hempty
  | _ =>
    rw [hc] at h
    exact absurd h hempty

end EventWorker

/-! ## Runs -/

/-- What the next step of a thread leaves behind. -/
def Thread.marks (cfg : Config) (env : Env) (t : Thread) : List RetryMark :=
  match t with
  | ⟨[], .event w⟩ => w.marks cfg env
  | _ => []

def Thread.Paced (t : Thread) (log : List RetryMark) : Prop :=
  match t.body with
  | .event w => w.Paced log
  | _ => True

namespace Engine

/-- What worker `k` leaves behind. -/
def retryMarks {n : ℕ} (cfg : Config) (k : Fin n) (c : Conf n) (i : Option (Fin n)) (e : Env) :
    List RetryMark :=
  if i = some k then (c.locals i).marks cfg e else []

theorem step_paced {n : ℕ} {cfg : Config} {env : Env} {sh : Shared n} (k : Fin n) {t : Thread}
    {log : List RetryMark} (h : t.Paced log) (hseated : t.body.Seated (cfg.perWorker k)) :
    (step cfg (some k) env sh t).2.Paced (log ++ t.marks cfg env) := by
  obtain ⟨ops, body⟩ := t
  cases ops with
  | cons op rest =>
    show Thread.Paced ⟨_, body⟩ (log ++ [])
    rw [List.append_nil]
    exact h
  | nil =>
    cases body with
    | main m => trivial
    | event w =>
      have hp : w.Paced log := h
      have hw : w.Seated (cfg.perWorker k) := hseated
      exact (EventWorker.eventStep_tries cfg k env sh w).paced hp hw.keyed
    | slot s => trivial

variable {cfg : Config} {beginNs : ℕ} {c : Conf cfg.threadCount} {k : Fin cfg.threadCount}
  {log : List RetryMark}

/-- The runs with the log of worker `k`. -/
abbrev RetryRun (cfg : Config) (beginNs : ℕ) (k : Fin cfg.threadCount) (c : Conf cfg.threadCount)
    (log : List RetryMark) : Prop :=
  Logged (step cfg) (retryMarks cfg k) (fun _ _ _ => True) (init cfg beginNs) c log

theorem RetryRun.paced (h : RetryRun cfg beginNs k c log) : (c.locals (some k)).Paced log := by
  refine h.local_invariant (J := Thread.Paced) (some k) ?_ ?_ ?_
  · show Thread.Paced ⟨[], initialBody cfg k⟩ []
    unfold initialBody
    split_ifs
    · trivial
    · exact EventWorker.paced_of_free (Table.all_empty _) rfl (fun _ h => (by cases h)) rfl
    · exact EventWorker.paced_of_free (Table.all_empty _) rfl (fun _ h => (by cases h)) rfl
  · intro c log e hc _ hp
    have hruns : Runs cfg beginNs c := hc.reach
    unfold retryMarks
    rw [if_pos rfl]
    exact step_paced k hp (hruns.seated k)
  · intro c j e hj
    exact if_neg hj

/-- A request is sent by a worker that has picked a session. -/
theorem sent_cases {i : Option (Fin cfg.threadCount)} {e : Env} {id retries ns : ℕ}
    {before after : List RetryMark}
    (h : retryMarks cfg k c i e = before ++ .sent id retries ns :: after) :
    before = [] ∧ ns = e.nowNs ∧ ∃ w now todo s, (c.locals (some k)).body = .event w ∧
      w.ctl = .sending id now todo ∧ w.sessions.lookup id = some s ∧ retries = s.retries := by
  have hempty : [] ≠ before ++ RetryMark.sent id retries ns :: after := by simp
  unfold retryMarks at h
  split_ifs at h with hi
  · subst hi
    generalize c.locals (some k) = t at h
    obtain ⟨ops, body⟩ := t
    cases ops with
    | cons op rest => exact absurd h hempty
    | nil =>
      cases body with
      | event w =>
        obtain ⟨hbefore, hns, now, todo, s, hsent⟩ := EventWorker.marks_sent h
        exact ⟨hbefore, hns, w, now, todo, s, rfl, hsent⟩
      | _ => exact absurd h hempty
  · exact absurd h hempty

/-- **A request waits for the backoff.** -/
theorem RetryRun.backed (h : RetryRun cfg beginNs k c log) (hsteady : Steady log) :
    Backed log := by
  intro before id retries ns after hlog
  obtain ⟨c', log', i, e, before', after', hrun, -, hobs, hbefore⟩ := h.split hlog
  obtain ⟨rfl, hns, w, now, todo, s, hbody, hc, hl, hretries⟩ := sent_cases hobs
  rw [List.append_nil] at hbefore
  subst hbefore
  have hthread := RetryRun.paced hrun
  unfold Thread.Paced at hthread
  rw [hbody] at hthread
  have hpass : now ∈ w.ctl.pass := by rw [hc]; rfl
  have hpicked : id ∈ w.picked := by simp [EventWorker.picked, hc]
  obtain ⟨s', hl', hdue⟩ := hthread.picked id hpicked now hpass
  rw [hl] at hl'
  cases hl'
  obtain ⟨l, l', old, failedNs, reopenedNs, hsplit, hat⟩ :=
    hthread.sessions id s hl retries hretries.symm
  refine ⟨l, l', old, failedNs, reopenedNs, hsplit, ?_⟩
  -- The error is before the session is created again, and the pass before the request.
  rw [hlog] at hsteady
  have hnow : now ≤ ns := hsteady.le (hthread.pass now hpass)
  have herror : failedNs ≤ reopenedNs := by
    have htail : Steady (l ++ [.failed old retries failedNs] ++
        .reopened id (retries + 1) reopenedNs :: (l' ++ .sent id (retries + 1) ns :: after)) := by
      rw [hsplit] at hsteady
      simpa using hsteady
    exact htail.le (List.mem_append_right _ (List.mem_singleton_self _))
  omega

/-- **The retry budget.** In every run, of any protocol and whatever the threads are answered: no
session and no slot has more than three retries; the shift of a backoff is 0, 1 or 2; as long as the
clock of a worker does not go back, it sends no request on a session that was created again earlier
than the backoff after the error; and there are no more retries than three for each connection and
each completed request. -/
theorem retry_budget (h : Runs cfg beginNs c) :
    (∀ i, (c.locals i).RetriesBounded) ∧
    (∀ i a, (c.locals i).shift = some a → a = 0 ∨ a = 1 ∨ a = 2) ∧
    (∀ k log, RetryRun cfg beginNs k c log → Steady log → Backed log) ∧
    c.shared.counters .retried ≤ 3 * (cfg.concurrency.toNat + c.shared.counters .completed) :=
  ⟨h.retriesBounded, fun i _ ha => (h.retriesBounded i).shift ha,
    fun _ _ hrun hsteady => hrun.backed hsteady, h.retried_le⟩

/-- The one worker of `twoRequests`: the host of its first connection is not resolved, and it goes
on when the backoff is over. -/
def resolvedLate : List (Option (Fin twoRequests.threadCount) × Env) :=
  List.replicate 25
      (firstWorker, { nowNs := 7, poll := { create := fun _ => { resolved := false } } })
    ++ List.replicate 16 (firstWorker, { nowNs := 60000000 })

theorem twoRequests_threads : 0 < twoRequests.threadCount := by decide

def lateLog : List RetryMark :=
  (init twoRequests 0).log (step twoRequests) (retryMarks twoRequests ⟨0, twoRequests_threads⟩)
    resolvedLate

/-- The second request is sent after the first retry. -/
theorem retry_budget_late : Backed lateLog ∧ .sent 2 1 60000000 ∈ lateLog := by
  have hrun : RetryRun twoRequests 0 ⟨0, twoRequests_threads⟩
      ((init twoRequests 0).run (step twoRequests) resolvedLate) lateLog :=
    logged_run _ (runOk_of_forall (fun _ _ _ => trivial) _)
  have hsteady : Steady lateLog := by
    unfold Steady
    decide +kernel
  exact ⟨(retry_budget hrun.reach).2.2.1 _ lateLog hrun hsteady, by decide +kernel⟩

end Engine

end TitanBench
