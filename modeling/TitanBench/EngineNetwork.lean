import TitanBench.EngineBytes
import TitanBench.EngineDelivery
import TitanBench.NetworkDescriptors

/-!
# The network worker of an engine thread

The engine calls its network worker in one order only: it starts it, submits and polls by turns, and
stops it. So what is known of every run of a network worker is known of every run of the engine.

* `EventWorker.netSteps` — the steps of the network worker in a step of the engine;
  `EventWorker.eventStep_net`.
* `NetRun.polling` — the network worker of a thread is what these steps make of a new one.
* `Released` — a thread leaves a stopped network worker behind; `EventWorker.released_step`.
* `descriptors_released` — the main result: what a returned worker has opened and closed.
-/

namespace TitanBench

open Threads NetWorker

variable {n : ℕ}

namespace EventWorker

variable {cfg : Config} {i : Fin n} {env : Env} {sh : Shared n} {w : EventWorker}

/-! ## The calls of one step -/

/-- The call `create_connection` makes. -/
def openingCommand (cfg : Config) : Command :=
  if cfg.protocol = .udp then .createUdp 0 cfg.endpoint
  else .createTcp 0 cfg.endpoint connectTimeoutMs

/-- The steps of the network worker in the next step of the worker. -/
def netSteps (cfg : Config) (env : Env) (w : EventWorker) : List NetWorker.Step :=
  match w.ctl with
  | .start => [.start env.start]
  | .connecting (_ + 1) => [.submit (openingCommand cfg) env.submit]
  | .sending id _ _ =>
    match w.sessions.lookup id with
    | none => []
    | some s => [.submit (.send s.connId (buildPayload cfg)) env.submit]
  | .polling => .clearEvents :: pollSteps env.poll { w.net with recvEvents := [] }
  | .reconnecting _ _ => [.submit (openingCommand cfg) env.submit]
  | .closing =>
    (w.sessions.visit env.order).map (fun id => .submit (.close id) (env.close id)) ++ [.stop]
  | _ => []

theorem submitConnection_net (cfg : Config) (sys : SubmitSys) (net : NetWorker) :
    (submitConnection cfg sys net).1 = (net.submit (openingCommand cfg) sys).1 := by
  unfold submitConnection openingCommand
  split_ifs <;> rfl

theorem run_closes (sys : ℕ → SubmitSys) (ids : List ℕ) (net : NetWorker) :
    Polling.run { net := net } (ids.map fun id => .submit (.close id) (sys id))
      = { net := ids.foldl (fun net id => (net.closeConnection id (sys id)).1) net } := by
  induction ids generalizing net with
  | nil => rfl
  | cons id ids ih => exact ih _

/-- **The steps of the network worker** are all that a step of the worker does to it. -/
theorem Move.net {r : Shared n × List Op × EventWorker} (hm : w.Move cfg i env sh r) :
    Polling.run { net := w.net } (w.netSteps cfg env) = { net := r.2.2.net } := by
  cases hm with
  | goes hg =>
    have hnone : w.netSteps cfg env = [] := by
      cases hg with
      | gone hc hl => simp [netSteps, hc, hl]
      | enter hc | sweep _ _ hc | swept hc | skip hc | pick hc | handled hc | unknown hc
      | stay hc =>
        simp [netSteps, hc]
    rw [hnone]
    rfl
  | opened _ hopens | notOpened hopens =>
    have hone : w.netSteps cfg env = [.submit (openingCommand cfg) env.submit] := by
      unfold netSteps
      generalize w.ctl = ctl at hopens
      cases hopens <;> rfl
    rw [hone, submitConnection_net]
    rfl
  | sent hc hl | requested hc hl | sendFailed hc hl =>
    simp only [netSteps, hc, hl]
    rfl
  | polled hc | pollFailed hc =>
    simp only [netSteps, hc]
    exact pollOnce_steps env.poll { w.net with recvEvents := [] }
  | closed hc =>
    simp only [netSteps, hc]
    rw [Polling.run_append, run_closes]
    rfl
  | started hc | notStarted hc | stopped hc | acquires hc | refused hc | granted hc | waits _ hc
  | waited _ hc | errored hc | received hc | retried hc | givenUp hc | returned hc =>
    simp only [netSteps, hc]
    rfl

theorem eventStep_net (cfg : Config) (i : Fin n) (env : Env) (sh : Shared n) (w : EventWorker) :
    Polling.run { net := w.net } (w.netSteps cfg env)
      = { net := (eventStep cfg i env sh w).2.2.net } :=
  (eventStep_move cfg i env sh w).net

/-! ## The network worker that is left behind -/

/-- A network worker is started only between the start and the end of its thread. -/
def Released (w : EventWorker) : Prop := w.ctl.phase ≠ .during → w.net.started = false

theorem Move.released {r : Shared n × List Op × EventWorker} (hm : w.Move cfg i env sh r)
    (h : w.Released) : r.2.2.Released := by
  cases hm with
  | goes hg =>
    intro hphase
    exact h (hg.phase ▸ hphase)
  | notStarted hc hfail =>
    intro _
    have hnot : w.net.started = false := h (by rw [hc]; exact fun heq => nomatch heq)
    rcases NetWorker.start_cases hnot env.start with ⟨-, hw⟩ | ⟨_, -, -, hw⟩ | ⟨_, _, -, -, -, hw⟩ |
      ⟨e, k, hepoll, hwake, hadd, -⟩
    · show (w.net.start env.start).1.started = false
      rw [hw]
    · show (w.net.start env.start).1.started = false
      rw [hw]
    · show (w.net.start env.start).1.started = false
      rw [hw]
    · refine absurd ?_ hfail
      unfold NetWorker.start
      simp [hnot, hepoll, hwake, hadd]
  | closed hc =>
    intro _
    show NetWorker.started (NetWorker.stop _) = false
    unfold NetWorker.stop
    split_ifs with hs
    · exact hs
    · rfl
  | returned hc =>
    intro _
    exact h (by rw [hc]; exact fun heq => nomatch heq)
  | opened _ hopens => exact fun hphase => absurd hopens.phase.2 hphase
  | _ => exact fun hphase => absurd rfl hphase

end EventWorker

/-! ## Runs -/

/-- The steps of the network worker in the next step of the thread's own code. -/
def Body.netSteps (cfg : Config) (env : Env) : Body → List NetWorker.Step
  | .event w => w.netSteps cfg env
  | _ => []

namespace Engine

variable {cfg : Config} {beginNs : ℕ} {c : Conf cfg.threadCount}
  {log : List (Fin cfg.threadCount × NetWorker.Step)}

/-- The steps of the network workers in a step of the run. -/
def netSteps (cfg : Config) (c : Conf n) (i : Option (Fin n)) (env : Env) :
    List (Fin n × NetWorker.Step) :=
  match i with
  | some i =>
    if (c.locals (some i)).ops = [] then ((c.locals (some i)).body.netSteps cfg env).map (i, ·)
    else []
  | none => []

/-- The steps of the network worker of thread `i`, with the states they are taken in. -/
def visitsOf (i : Fin n) (log : List (Fin n × NetWorker.Step)) :
    List (Polling × NetWorker.Step) :=
  Polling.visits {} (entriesOf i log)

/-- The runs, with the steps of the network workers. -/
abbrev NetRun (cfg : Config) (beginNs : ℕ) :
    Conf cfg.threadCount → List (Fin cfg.threadCount × NetWorker.Step) → Prop :=
  Logged (step cfg) (netSteps cfg) (fun _ _ _ => True) (init cfg beginNs)

theorem step_net (cfg : Config) (i : Fin n) (env : Env) (sh : Shared n) (t : Thread) :
    Polling.run { net := t.body.net } (if t.ops = [] then t.body.netSteps cfg env else [])
      = { net := (step cfg (some i) env sh t).2.body.net } := by
  obtain ⟨ops, body⟩ := t
  cases ops with
  | cons op rest => rfl
  | nil =>
    cases body with
    | event w => exact w.eventStep_net cfg i env sh
    | _ => rfl

/-- **The network worker of a thread** is what its steps make of a new one. -/
theorem NetRun.polling (h : NetRun cfg beginNs c log) (i : Fin cfg.threadCount) :
    Polling.run {} (entriesOf i log) = { net := netOf c i } := by
  have hinit : ({ net := ((init cfg beginNs).locals (some i)).body.net } : Polling) = {} := by
    show ({ net := (initialBody cfg i).net } : Polling) = {}
    unfold initialBody
    split_ifs <;> rfl
  rw [← hinit]
  refine h.part (g := fun t : Thread => ({ net := t.body.net } : Polling)) (some i) i ?_ ?_
  · intro c env
    rw [← step_net]
    unfold netSteps
    dsimp only
    split_ifs
    · rw [entriesOf_self]
    · rfl
  · intro c j env hj
    cases j with
    | none => rfl
    | some j =>
      have hne : j ≠ i := fun heq => hj (congrArg some heq)
      unfold netSteps
      dsimp only
      split_ifs
      · rw [entriesOf_other hne]
      · rfl

theorem NetRun.sane (h : NetRun cfg beginNs c log) (i : Fin cfg.threadCount) :
    Polling.Sane { net := netOf c i } := by
  rw [← h.polling i]
  exact Polling.sane_init.run _

/-! ## Descriptors -/

/-- What a run of a network worker closes. -/
theorem closed_run (steps : List NetWorker.Step) :
    (Polling.run {} steps).Sane ∧
      (Polling.run {} steps).net.closed = (Polling.visits {} steps).flatMap Polling.closes := by
  refine @Mealy.history_invariant _ _ Polling.step (fun p hist =>
    p.Sane ∧ p.net.closed = hist.flatMap Polling.closes) (fun _ => True) ?_ {} []
    ⟨Polling.sane_init, rfl⟩ steps fun _ _ => trivial
  intro p hist s _ ⟨hsane, hclosed⟩
  refine ⟨hsane.step s, ?_⟩
  rw [(Polling.settles_step hsane s).1, hclosed, List.flatMap_append, List.flatMap_singleton]
  rfl

theorem Runs.released (h : Runs cfg beginNs c) (i : Fin cfg.threadCount) :
    (c.shared.running i = false → (netOf c i).started = false) := by
  intro hi
  have hkeeps : ∀ w, (c.locals (some i)).body = .event w → w.Released := by
    refine h.local_invariant (J := fun t => ∀ w, t.body = .event w → w.Released) (some i) ?_ ?_
    · intro w hw _
      have hinit : initialBody cfg i = .event w := hw
      unfold initialBody at hinit
      split_ifs at hinit
      · cases hinit
        rfl
      · cases hinit
        rfl
    · intro c env _ _ ih w hw
      rcases ht : c.locals (some i) with ⟨ops, body⟩
      rw [ht] at hw ih
      cases ops with
      | cons op rest => exact ih w hw
      | nil =>
        cases body with
        | event w₀ =>
          cases hw
          exact (w₀.eventStep_move cfg i env c.shared).released (ih w₀ rfl)
        | _ => cases hw
  have hexited := (h.exited i hi).2
  unfold netOf
  cases hbody : (c.locals (some i)).body with
  | event w =>
    rw [hbody] at hexited
    have hctl : w.ctl = .exited := hexited
    refine hkeeps w hbody ?_
    rw [hctl]
    exact fun heq => nomatch heq
  | _ => rfl

/-- **A run leaks no descriptor.** A worker that has returned has none open, and the calls of
`close` its network worker made are one for each descriptor it obtained, and those of the handlers
that close a descriptor a connection keeps. -/
theorem descriptors_released (h : NetRun cfg beginNs c log) {i : Fin cfg.threadCount}
    (hi : c.shared.running i = false) :
    (netOf c i).openFds = [] ∧
      ((visitsOf i log).flatMap Polling.obtains
        ++ (visitsOf i log).flatMap Polling.closesEarly).Perm (netOf c i).closed := by
  have hruns : Runs cfg beginNs c := h.reach
  have hnone : (netOf c i).openFds = [] := by
    have hidle := (h.sane i).idle (hruns.released i hi)
    rw [openFds_eq, hidle.epollFd, hidle.wakeFd, hidle.connections]
    rfl
  refine ⟨hnone, ?_⟩
  have hnet := h.polling i
  have hclosed := (closed_run (entriesOf i log)).2
  rw [hnet] at hclosed
  have hperm := @Handles.perm_visits _ _ _ _ Polling.step (fun p => p.net.openFds)
    Polling.obtains Polling.closes Polling.closesEarly {} (entriesOf i log)
    fun x hx => (Polling.settles_step (Polling.sane_init.visited hx) x.2).2
  have hlast : (Polling.run {} (entriesOf i log)).net.openFds = [] := by
    rw [hnet]
    exact hnone
  have hfirst : ({} : Polling).net.openFds = [] := rfl
  rw [hfirst, hlast, List.append_nil, List.append_nil] at hperm
  rw [hclosed]
  exact hperm

/-- The run of one request obtains the descriptors 3, 4 and 5 and closes each of them once. -/
theorem descriptors_released_response :
    (netOf (reported [okResponse]) ⟨0, by decide⟩).openFds = [] ∧
      ((visitsOf ⟨0, by decide⟩ ((init oneHttpRequest 0).log (step oneHttpRequest)
        (netSteps oneHttpRequest) (answeredBy [okResponse]))).flatMap Polling.obtains).Perm
        (netOf (reported [okResponse]) ⟨0, by decide⟩).closed ∧
      (netOf (reported [okResponse]) ⟨0, by decide⟩).closed = [5, 4, 3] := by
  have hrun : NetRun oneHttpRequest 0 (reported [okResponse])
      ((init oneHttpRequest 0).log (step oneHttpRequest) (netSteps oneHttpRequest)
        (answeredBy [okResponse])) := logged_run _ (runOk_of_forall (fun _ _ _ => trivial) _)
  obtain ⟨hnone, hperm⟩ := @descriptors_released _ _ _ _ hrun ⟨0, by decide⟩ (by decide +kernel)
  have hearly : (visitsOf ⟨0, by decide⟩ ((init oneHttpRequest 0).log (step oneHttpRequest)
      (netSteps oneHttpRequest) (answeredBy [okResponse]))).flatMap Polling.closesEarly = [] := by
    decide +kernel
  rw [hearly, List.append_nil] at hperm
  exact ⟨hnone, hperm, by decide +kernel⟩

end Engine

end TitanBench
