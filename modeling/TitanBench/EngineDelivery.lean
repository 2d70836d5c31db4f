import Mathlib.Data.Fintype.BigOperators
import TitanBench.EngineMoves
import TitanBench.NetworkLedger

/-!
# What becomes of the payloads

With tcp and udp a request counts as a success when its `Send` is queued. What becomes of the
payload is settled later, in the worker's `NetWorker`: `send` takes all of it, or it is discarded
with its connection, with a `Send` for a connection that is gone, or at the end.

* `NetOk` — what holds of a worker's `NetWorker`; `Move.netOk` says that every step keeps it.
* `Move.success` — a step counts a success only for a payload it submits.
* `Runs.succeeded_le` — so no run counts more successes than payloads submitted.
-/

namespace TitanBench

open Threads

/-! ## A worker and its network worker -/

/-- No command is queued and no connection is left. -/
def NetWorker.Settled (w : NetWorker) : Prop := w.commands = [] ∧ w.connections = ∅

structure EventWorker.NetOk (cfg : Config) (w : EventWorker) : Prop where
  inv : w.net.Inv
  payloads : ∀ p ∈ w.net.submitted, p = buildPayload cfg
  fresh : w.ctl.phase = .before → w.net = {}
  started : w.ctl.phase = .during → w.net.started = true
  settled : w.ctl.phase = .after → w.net.Settled

namespace EventWorker

variable {cfg : Config} {w : EventWorker}

/-- A step that leaves the network worker alone. -/
theorem NetOk.keep (h : w.NetOk cfg) {w' : EventWorker} (hnet : w'.net = w.net)
    (hphase : w'.ctl.phase = w.ctl.phase) : w'.NetOk cfg := by
  refine ⟨hnet ▸ h.inv, hnet ▸ h.payloads, fun hp => ?_, fun hp => ?_, fun hp => ?_⟩
  · exact hnet.trans (h.fresh (hphase.symm.trans hp))
  · exact hnet ▸ h.started (hphase.symm.trans hp)
  · exact hnet ▸ h.settled (hphase.symm.trans hp)

/-- A step that works on the network worker. -/
theorem NetOk.call (h : w.NetOk cfg) {ps : List Bytes} {w' : EventWorker}
    (hphase : w.ctl.phase = .during) (hinv : w'.net.Inv) (hs : NetWorker.Submits ps w.net w'.net)
    (hps : ∀ p ∈ ps, p = buildPayload cfg) (hphase' : w'.ctl.phase = .during) : w'.NetOk cfg := by
  refine ⟨hinv, fun p hp => ?_, fun hp => ?_, fun _ => ?_, fun hp => ?_⟩
  · rw [hs.submitted, List.mem_append] at hp
    exact hp.elim (h.payloads p) (hps p)
  · rw [hphase'] at hp
    cases hp
  · rw [hs.started]
    exact h.started hphase
  · rw [hphase'] at hp
    cases hp

theorem settled_shutdownAll (w : NetWorker) : w.shutdownAll.Settled := ⟨rfl, rfl⟩

/-- `start` succeeds on a started worker, and leaves nothing behind when it fails. -/
theorem start_cases (sys : StartSys) :
    ((({} : NetWorker).start sys).2 = .ok ∧ (({} : NetWorker).start sys).1.started = true) ∨
      ((({} : NetWorker).start sys).2 ≠ .ok ∧ (({} : NetWorker).start sys).1.Settled) := by
  unfold NetWorker.start
  rw [if_neg (by decide)]
  cases sys.epollFd with
  | none => exact .inr ⟨(fun h => nomatch h), rfl, rfl⟩
  | some epollFd =>
    cases sys.wakeFd with
    | none => exact .inr ⟨(fun h => nomatch h), rfl, rfl⟩
    | some wakeFd =>
      dsimp only
      split_ifs
      · exact .inr ⟨(fun h => nomatch h), rfl, rfl⟩
      · exact .inl ⟨rfl, rfl⟩

theorem submitted_start (sys : StartSys) : (({} : NetWorker).start sys).1.submitted = [] := by
  unfold NetWorker.start
  rw [if_neg (by decide)]
  cases sys.epollFd with
  | none => rfl
  | some epollFd =>
    cases sys.wakeFd with
    | none => rfl
    | some wakeFd =>
      dsimp only
      split_ifs <;> rfl

theorem submits_connection (cfg : Config) (sys : SubmitSys) (net : NetWorker) :
    NetWorker.Submits [] net (submitConnection cfg sys net).1 := by
  unfold submitConnection
  split_ifs
  · exact NetWorker.submits_createUdpConnection _ _ _
  · exact NetWorker.submits_createTcpConnection _ _ _ _

theorem inv_submitConnection (cfg : Config) (sys : SubmitSys) {net : NetWorker} (h : net.Inv) :
    (submitConnection cfg sys net).1.Inv := by
  unfold submitConnection
  split_ifs
  · exact h.createUdpConnection _ _
  · exact h.createTcpConnection _ _ _

/-- Closing the connections one by one. -/
theorem foldl_close {net : NetWorker} (h : net.Inv) (close : ℕ → SubmitSys) (ids : List ℕ) :
    (ids.foldl (fun net id => (net.closeConnection id (close id)).1) net).Inv ∧
      NetWorker.Submits [] net
        (ids.foldl (fun net id => (net.closeConnection id (close id)).1) net) := by
  induction ids generalizing net with
  | nil => exact ⟨h, .refl net⟩
  | cons id ids ih =>
    have hnext := ih (h.closeConnection id (close id))
    exact ⟨hnext.1, (NetWorker.submits_closeConnection net id (close id)).then hnext.2⟩

variable {n : ℕ} {i : Fin n} {env : Env} {sh : Shared n} {r : Shared n × List Op × EventWorker}

/-- `Send` submits at most the payload. -/
theorem send_payloads (cfg : Config) (id : ℕ) (sys : SubmitSys) (net : NetWorker) :
    ∃ ps, NetWorker.Submits ps net (net.send id (buildPayload cfg) sys).1 ∧
      ∀ p ∈ ps, p = buildPayload cfg := by
  rcases NetWorker.submits_send net id (buildPayload cfg) sys with h | ⟨h, -⟩
  · exact ⟨_, h, fun p hp => List.mem_singleton.mp hp⟩
  · exact ⟨_, h, fun p hp => nomatch hp⟩

theorem NetOk.send (h : w.NetOk cfg) {id now : ℕ} {todo : List ℕ}
    (hc : w.ctl = .sending id now todo) (connId : ℕ) (sys : SubmitSys) {w' : EventWorker}
    (hnet : w'.net = (w.net.send connId (buildPayload cfg) sys).1)
    (hphase : w'.ctl.phase = .during) : w'.NetOk cfg := by
  obtain ⟨ps, hs, hps⟩ := send_payloads cfg connId sys w.net
  refine h.call (by rw [hc]; rfl) ?_ (hnet ▸ hs) hps hphase
  rw [hnet]
  exact h.inv.send _ _ _

theorem NetOk.poll (h : w.NetOk cfg) (hc : w.ctl = .polling) (sys : PollSys) {w' : EventWorker}
    (hnet : w'.net = (NetWorker.pollOnce sys { w.net with recvEvents := [] }).1)
    (hphase : w'.ctl.phase = .during) : w'.NetOk cfg := by
  have hs := NetWorker.submits_pollOnce { w.net with recvEvents := [] } sys
  have hsub : NetWorker.Submits [] w.net w'.net := by
    rw [hnet]
    exact ⟨hs.started, hs.submitted⟩
  refine h.call (by rw [hc]; rfl) ?_ hsub (List.forall_mem_nil _) hphase
  rw [hnet]
  exact (h.inv.setEvents []).pollOnce sys

theorem NetOk.connection (h : w.NetOk cfg) {next : EventCtl} (hopens : Opens w.ctl next)
    (sys : SubmitSys) {w' : EventWorker} (hnet : w'.net = (submitConnection cfg sys w.net).1)
    (hphase : w'.ctl.phase = .during) : w'.NetOk cfg := by
  refine h.call hopens.phase.1 ?_ (hnet ▸ submits_connection cfg sys w.net)
    (List.forall_mem_nil _) hphase
  rw [hnet]
  exact inv_submitConnection cfg sys h.inv

theorem NetOk.start (h : w.NetOk cfg) (hc : w.ctl = .start) (sys : StartSys) {w' : EventWorker}
    (hnet : w'.net = (w.net.start sys).1)
    (hphase : ((w.net.start sys).2 = .ok ∧ w'.ctl.phase = .during) ∨
      ((w.net.start sys).2 ≠ .ok ∧ w'.ctl.phase = .after)) : w'.NetOk cfg := by
  have hfresh : w.net = {} := h.fresh (by rw [hc]; rfl)
  have hinv : w'.net.Inv := hnet ▸ h.inv.start sys
  rw [hfresh] at hnet hphase
  have hsub : ∀ p ∈ w'.net.submitted, p = buildPayload cfg := by
    rw [hnet, submitted_start]
    exact fun p hp => nomatch hp
  rcases start_cases sys with ⟨hok, hstarted⟩ | ⟨hok, hsettled⟩
  · have hp := (hphase.resolve_right fun h => h.1 hok).2
    exact ⟨hinv, hsub, fun h => absurd (hp.symm.trans h) (by decide), fun _ => hnet ▸ hstarted,
      fun h => absurd (hp.symm.trans h) (by decide)⟩
  · have hp := (hphase.resolve_left fun h => hok h.1).2
    exact ⟨hinv, hsub, fun h => absurd (hp.symm.trans h) (by decide),
      fun h => absurd (hp.symm.trans h) (by decide), fun _ => hnet ▸ hsettled⟩

theorem stop_started {net : NetWorker} (h : net.started = true) :
    net.stop = { net with started := false }.shutdownAll := by
  unfold NetWorker.stop
  rw [if_neg (by simp [h])]

/-- The worker closes its connections and its network worker. -/
theorem NetOk.closeAll_net (h : w.NetOk cfg) (hc : w.ctl = .closing) (env : Env) :
    (w.closeAll env).net.Inv ∧ (w.closeAll env).net.submitted = w.net.submitted ∧
      (w.closeAll env).net.Settled := by
  obtain ⟨hinv, hs⟩ := foldl_close h.inv env.close (w.sessions.visit env.order)
  have hstarted := hs.started.trans (h.started (by rw [hc]; rfl))
  unfold EventWorker.closeAll
  refine ⟨hinv.stop, ?_, ?_⟩
  · dsimp only
    rw [stop_started hstarted]
    exact hs.submitted.trans (List.append_nil _)
  · dsimp only
    rw [stop_started hstarted]
    exact settled_shutdownAll _

theorem NetOk.closeAll (h : w.NetOk cfg) (hc : w.ctl = .closing) (env : Env) :
    (w.closeAll env).NetOk cfg := by
  obtain ⟨hinv, hsub, hsettled⟩ := h.closeAll_net hc env
  exact ⟨hinv, fun p hp => h.payloads p (hsub ▸ hp), fun hp => (nomatch hp),
    fun hp => (nomatch hp), fun _ => hsettled⟩

theorem Move.netOk (hm : w.Move cfg i env sh r) (h : w.NetOk cfg) : r.2.2.NetOk cfg := by
  cases hm with
  | goes hg => exact h.keep rfl hg.phase
  | stopped hc _ => exact h.keep rfl (by rw [hc]; rfl)
  | started hc hok => exact h.start hc env.start rfl (.inl ⟨hok, rfl⟩)
  | notStarted hc hok => exact h.start hc env.start rfl (.inr ⟨hok, rfl⟩)
  | opened session hopens => exact h.connection hopens env.submit rfl hopens.phase.2
  | notOpened hopens => exact h.connection hopens env.submit rfl rfl
  | sent hc => exact h.send hc _ env.submit rfl rfl
  | requested hc => exact h.send hc _ env.submit rfl rfl
  | sendFailed hc => exact h.send hc _ env.submit rfl rfl
  | polled hc => exact h.poll hc env.poll rfl rfl
  | pollFailed hc => exact h.poll hc env.poll rfl rfl
  | closed hc => exact h.closeAll hc env
  | acquires hc => exact h.keep rfl (by rw [hc]; rfl)
  | refused hc => exact h.keep rfl (by rw [hc]; rfl)
  | granted hc => exact h.keep rfl (by rw [hc]; rfl)
  | waits token hc => exact h.keep rfl (by rw [hc]; rfl)
  | waited token hc => exact h.keep rfl (by rw [hc]; rfl)
  | errored hc => exact h.keep rfl (by rw [hc]; rfl)
  | received hc => exact h.keep rfl (by rw [hc]; rfl)
  | retried hc => exact h.keep rfl (by rw [hc]; rfl)
  | givenUp hc => exact h.keep rfl (by rw [hc]; rfl)
  | returned hc => exact h.keep rfl (by rw [hc]; rfl)

/-- A success is counted only for a payload that was submitted. -/
theorem Move.success (hp : cfg.protocol = .tcp ∨ cfg.protocol = .udp) (hm : w.Move cfg i env sh r)
    (h : w.NetOk cfg) :
    owed .succeeded r.2.1 + w.net.submitted.length ≤ r.2.2.net.submitted.length := by
  have hsame : ∀ {net : NetWorker}, NetWorker.Submits [] w.net net →
      0 + w.net.submitted.length ≤ net.submitted.length := by
    intro net hs
    rw [hs.length_eq]
    exact (Nat.zero_add _).le
  have hhttp : cfg.protocol ≠ .http := by rcases hp with hp | hp <;> rw [hp] <;> decide
  have hstart : w.ctl = .start → (w.net.start env.start).1.submitted = [] := by
    intro hc
    rw [h.fresh (by rw [hc]; rfl)]
    exact submitted_start env.start
  have hfresh : w.ctl = .start → w.net.submitted = [] := by
    intro hc
    rw [h.fresh (by rw [hc]; rfl)]
  cases hm with
  | started hc _ => simp [hstart hc, hfresh hc]
  | notStarted hc _ => simp [hstart hc, hfresh hc]
  | opened | notOpened => exact hsame (submits_connection cfg env.submit w.net)
  | @sent id now todo s hc hl hok _ =>
    have hs := (NetWorker.submits_send w.net s.connId (buildPayload cfg) env.submit).resolve_right
      fun h => h.2 hok
    have hlen := hs.length_eq
    have howed : owed .succeeded (.add .bytesSent (buildPayload cfg).length ::
        sendDoneOps env.nowNs env.laterNs (buildPayload cfg).length) = 1 := by
      simp [sendDoneOps]
    rw [List.length_singleton] at hlen
    dsimp only
    omega
  | requested _ _ _ hno => exact absurd hp hno
  | @sendFailed id now todo s hc hl hok =>
    obtain ⟨ps, hs, -⟩ := send_payloads cfg s.connId env.submit w.net
    have hlen := hs.length_eq
    have howed : owed .succeeded (sendFailedOps env.nowNs
        (w.net.send s.connId (buildPayload cfg) env.submit).2) = 0 := by
      simp [sendFailedOps]
    dsimp only
    omega
  | polled | pollFailed =>
    have hs := NetWorker.submits_pollOnce { w.net with recvEvents := [] } env.poll
    exact hsame ⟨hs.started, hs.submitted⟩
  | @errored ev events old hc hl herr =>
    have howed : owed .succeeded (errorOps cfg env ev.error old) = 0 := by
      unfold errorOps
      split_ifs <;> simp
    dsimp only
    omega
  | @received ev events old hc hl herr =>
    have hd := dataEvent_digested cfg env ev.data old
    generalize dataEvent cfg env ev.data old = d at hd
    cases hd with
    | other => exact hsame (.refl _)
    | rejected heq => exact absurd heq hhttp
    | finished heq => exact absurd heq hhttp
    | awaited heq => exact absurd heq hhttp
  | closed hc =>
    rw [(h.closeAll_net hc env).2.1]
    exact (Nat.zero_add _).le
  | _ => exact hsame (.refl _)

end EventWorker

namespace Body

/-- The network worker of an event-driven worker. -/
def net : Body → NetWorker
  | .event w => w.net
  | _ => {}

def NetOk (cfg : Config) : Body → Prop
  | .event w => w.NetOk cfg
  | _ => True

end Body

namespace Engine

variable {cfg : Config}

/-! ## Runs -/

section Steps

variable {n : ℕ} {env : Env} {sh : Shared n} {i : Option (Fin n)} {t : Thread}
  {r : Shared n × Thread}

theorem Move.netOk (hm : Move cfg env sh i t r) (h : t.body.NetOk cfg) : r.2.body.NetOk cfg := by
  cases hm with
  | op => exact h
  | main => trivial
  | event hm => exact hm.netOk h
  | slot => trivial
  | stay => exact h

theorem Move.success (hp : cfg.protocol = .tcp ∨ cfg.protocol = .udp) (hm : Move cfg env sh i t r)
    (hslot : ∀ s, t.body ≠ .slot s) (h : t.body.NetOk cfg) :
    r.1.counters .succeeded + owed .succeeded r.2.ops + t.body.net.submitted.length
      ≤ sh.counters .succeeded + owed .succeeded t.ops + r.2.body.net.submitted.length := by
  cases hm with
  | op body hx =>
    have hpays := hx.pays .succeeded
    dsimp only
    omega
  | @main m r hr =>
    have hf := mainStep_frame cfg env sh m
    rw [← hr] at hf
    rw [hf.counters]
    rcases hf.ops with hops | hops <;> rw [hops] <;> exact le_rfl
  | @event i w r hm =>
    have hcount := hm.counters (c := .succeeded) (fun h => nomatch h)
    have hpaid : owed .succeeded r.2.1 + w.net.submitted.length ≤ r.2.2.net.submitted.length :=
      hm.success hp h
    show r.1.counters .succeeded + owed .succeeded r.2.1 + w.net.submitted.length
      ≤ sh.counters .succeeded + 0 + r.2.2.net.submitted.length
    omega
  | slot => exact absurd rfl (hslot _)
  | stay => exact le_rfl

end Steps

variable {beginNs : ℕ} {c : Conf cfg.threadCount}

theorem netOk_init (cfg : Config) (beginNs : ℕ) (i : Option (Fin cfg.threadCount)) :
    ((init cfg beginNs).locals i).body.NetOk cfg := by
  have hnil : ∀ p ∈ (({} : NetWorker).submitted), p = buildPayload cfg := List.forall_mem_nil _
  cases i with
  | none => trivial
  | some i =>
    show (initialBody cfg i).NetOk cfg
    unfold initialBody
    split_ifs
    · trivial
    · exact ⟨NetWorker.inv_init, hnil, fun _ => rfl, fun h => (nomatch h), fun _ => ⟨rfl, rfl⟩⟩
    · exact ⟨NetWorker.inv_init, hnil, fun _ => rfl, fun h => (nomatch h), fun h => (nomatch h)⟩

theorem Runs.netOk (h : Runs cfg beginNs c) (i : Option (Fin cfg.threadCount)) :
    (c.locals i).body.NetOk cfg :=
  h.local_invariant (J := fun t => t.body.NetOk cfg) i (netOk_init cfg beginNs i)
    fun c e _ _ ht => (step_move cfg i e c.shared (c.locals i)).netOk ht

/-- The network worker of worker `i`. -/
def netOf {n : ℕ} (c : Conf n) (i : Fin n) : NetWorker := (c.locals (some i)).body.net

end Engine

end TitanBench
