import TitanBench.EngineOverrun
import TitanBench.EngineStop
import TitanBench.EngineSync

/-!
# The connections of a run

A worker that loses a connection asks for another one before it has given up the session of the
first, and its `NetWorker` has dropped the connection by then. So there are never more connections
than the configuration asks for.

* `EventWorker.Winding` — the places where a worker that is about to end stops keeping its sessions
  and connections in step.
* `Within` — everywhere else they are in step, and everywhere the connections are within the share.
* `connections_le` — the main result.
-/

namespace TitanBench

open Threads

variable {n : ℕ}

/-! ## What leaves the connections alone -/

namespace NetWorker

theorem start_connections (w : NetWorker) (sys : StartSys) :
    (w.start sys).1.connections = w.connections ∨ (w.start sys).1.connections = ∅ := by
  unfold start
  split
  · exact .inl rfl
  · cases sys.epollFd with
    | none => exact .inl rfl
    | some epollFd =>
      cases sys.wakeFd with
      | none => exact .inr rfl
      | some wakeFd =>
        dsimp only
        split
        · exact .inr rfl
        · exact .inl rfl

theorem Opening.connections {w : NetWorker} {r : NetWorker × NetErrc × ℕ} (h : Opening w r) :
    r.1.connections = w.connections := by
  cases h <;> rfl

theorem Sending.connections {w w' : NetWorker} {id : ℕ} {payload : Bytes}
    (h : Sending w id payload w') : w'.connections = w.connections := by
  cases h <;> rfl

theorem closeConnection_connections (w : NetWorker) (id : ℕ) (sys : SubmitSys) :
    (w.closeConnection id sys).1.connections = w.connections := by
  unfold closeConnection
  split_ifs <;> rfl

theorem stop_connections (w : NetWorker) :
    w.stop.connections = w.connections ∨ w.stop.connections = ∅ := by
  unfold stop
  split_ifs
  · exact .inl rfl
  · exact .inr rfl

/-- Connections that all have a session are no more than the sessions. -/
theorem InStep.length_le {sessions : Table ℕ Session} {events : List RecvEvent}
    {queue : List Command} {w : NetWorker} (h : InStep (· ∈ sessions) events queue w) :
    w.connections.keys.length ≤ sessions.keys.length := by
  have hsub : w.connections.keys ⊆ sessions.keys := fun id hid =>
    AList.mem_keys.mp (h.live id (.inl (AList.mem_keys.mpr hid)))
  exact (w.connections.keys_nodup.subperm hsub).length_le

end NetWorker

namespace EventWorker

theorem closeAll_connections (env : Env) (w : EventWorker) :
    (w.closeAll env).net.connections = w.net.connections ∨
      (w.closeAll env).net.connections = ∅ := by
  have hfold : ∀ (ids : List ℕ) (net : NetWorker),
      (ids.foldl (fun net id => (net.closeConnection id (env.close id)).1) net).connections
        = net.connections := by
    intro ids
    induction ids with
    | nil => exact fun _ => rfl
    | cons id ids ih => exact fun net => (ih _).trans (net.closeConnection_connections _ _)
  unfold closeAll
  rw [← hfold (w.sessions.visit env.order) w.net]
  exact NetWorker.stop_connections _

/-! ## A worker -/

/-- The worker is about to end. -/
def Winding (stop : Prop) (w : EventWorker) : Prop :=
  w.ctl = .closing ∨ w.ctl.phase = .after ∨ (w.ctl = .loopTop ∧ stop)

/-- The worker is about to end, or its sessions and its connections are in step; it has no more
connections than its share. -/
structure Within (share : ℕ) (stop : Prop) (w : EventWorker) : Prop where
  inStep : w.Winding stop ∨ w.InStep
  count : w.net.connections.keys.length ≤ share

section Step

variable {cfg : Config} {i : Fin n} {env : Env} {sh : Shared n} {w : EventWorker}

/-- A poll is made by a worker in step. -/
theorem Within.polling {share : ℕ} {stop : Prop} (h : w.Within share stop)
    (hc : w.ctl = .polling) : w.InStep := by
  rcases h.inStep with (hclosing | hafter | ⟨htop, -⟩) | hin
  · rw [hc] at hclosing
    cases hclosing
  · rw [hc] at hafter
    cases hafter
  · rw [hc] at htop
    cases htop
  · exact hin

/-- Only a poll adds connections. -/
theorem Move.connections {r : Shared n × List Op × EventWorker} (hm : w.Move cfg i env sh r)
    (hc : w.ctl ≠ .polling) :
    r.2.2.net.connections = w.net.connections ∨ r.2.2.net.connections = ∅ := by
  cases hm with
  | started | notStarted => exact w.net.start_connections env.start
  | opened | notOpened => exact .inl (submitConnection_opening cfg env.submit w.net).connections
  | sent | requested | sendFailed => exact .inl (w.net.send_sending _ _ _).connections
  | polled hpoll | pollFailed hpoll => exact absurd hpoll hc
  | closed => exact w.closeAll_connections env
  | _ => exact .inl rfl

theorem Winding.mono {stop stop' : Prop} (h : w.Winding stop) (himp : stop → stop') :
    w.Winding stop' :=
  h.imp_right (Or.imp_right (And.imp_right himp))

theorem eventStep_winding (h : w.Winding (sh.stop = true)) :
    (eventStep cfg i env sh w).2.2.Winding False := by
  rcases h with hclosing | hafter | ⟨htop, hstop⟩
  · have hstep : eventStep cfg i env sh w = (sh, [], w.closeAll env) := by
      unfold eventStep
      rw [hclosing]
    rw [hstep]
    exact .inr (.inl rfl)
  · have hexited : (eventStep cfg i env sh w).2.2.ctl = .exited := by
      unfold eventStep
      cases hc : w.ctl with
      | returning => rfl
      | exited => exact hc
      | _ =>
        rw [hc] at hafter
        cases hafter
    exact .inr (.inl (by rw [hexited]; rfl))
  · rw [eventStep_loopTop htop, if_pos hstop]
    exact .inl rfl

/-- A step of the worker keeps its sessions and its connections in step, or it is about to end. -/
theorem eventStep_inStep {share : ℕ} (hseated : w.Seated share)
    (h : w.Winding (sh.stop = true) ∨ w.InStep) :
    (eventStep cfg i env sh w).2.2.Winding
        ((eventStep cfg i env sh w).1.stop = true ∨ .storeStop ∈ (eventStep cfg i env sh w).2.1) ∨
      (eventStep cfg i env sh w).2.2.InStep := by
  have hm := eventStep_move cfg i env sh w
  by_cases hwinding : w.Winding (sh.stop = true)
  · exact .inl ((eventStep_winding hwinding).mono False.elim)
  · have hclosing : w.ctl ≠ .closing := fun hc => hwinding (.inl hc)
    rcases hm.inStep hseated hclosing (h.resolve_left hwinding) with ⟨htop, hstop⟩ | hstore | hkept
    · exact absurd (.inr (.inr ⟨htop, hstop⟩)) hwinding
    · rcases (hm.storeStop hstore).2 with hc | hc | hc
      · exact .inl (.inr (.inl (by rw [hc]; rfl)))
      · exact .inl (.inl hc)
      · exact .inl (.inr (.inr ⟨hc, .inr hstore⟩))
    · exact .inr hkept.2

/-- A poll leaves no more connections than sessions. -/
theorem eventStep_polled (hc : w.ctl = .polling) (h : w.InStep) :
    (eventStep cfg i env sh w).2.2.net.connections.keys.length ≤ w.sessions.keys.length := by
  have hnet : (eventStep cfg i env sh w).2.2.net =
      (NetWorker.pollOnce env.poll { w.net with recvEvents := [] }).1 := by
    unfold eventStep
    rw [hc]
    dsimp only
    obtain ⟨net, ec⟩ := NetWorker.pollOnce env.poll { w.net with recvEvents := [] }
    cases ec <;> rfl
  have hcleared : NetWorker.InStep (· ∈ w.sessions) [] w.net.commands
      { w.net with recvEvents := [] } := by
    have hin : w.net.InStep (· ∈ w.sessions) w.ctl.events w.net.commands := h
    rw [hc] at hin
    exact hin.congr hin.wellKeyed (fun _ => Iff.rfl) rfl (fun _ => Iff.rfl)
  rw [hnet]
  exact (NetWorker.inStep_pollOnce env.poll hcleared).length_le

theorem eventStep_within {share : ℕ} (hseated : w.Seated share)
    (h : w.Within share (sh.stop = true)) :
    (eventStep cfg i env sh w).2.2.Within share
      ((eventStep cfg i env sh w).1.stop = true ∨ .storeStop ∈ (eventStep cfg i env sh w).2.1) := by
  refine ⟨eventStep_inStep hseated h.inStep, ?_⟩
  by_cases hpoll : w.ctl = .polling
  · have hsessions := hseated.count
    have hpolled := @eventStep_polled n cfg i env sh w hpoll (h.polling hpoll)
    omega
  · rcases (eventStep_move cfg i env sh w).connections hpoll with hsame | hnone
    · rw [hsame]
      exact h.count
    · rw [hnone]
      exact Nat.zero_le _

end Step

end EventWorker

/-! ## Runs -/

namespace Body

/-- The connections the thread has. -/
def connectionCount : Body → ℕ
  | .main _ => 0
  | .event w => w.net.connections.keys.length
  | .slot s => if s.client.fd.isSome then 1 else 0

end Body

namespace Engine

variable {cfg : Config} {beginNs : ℕ} {c : Conf cfg.threadCount}

def Within (share : ℕ) (sh : Shared n) (t : Thread) : Prop :=
  ∀ w, t.body = .event w → w.Within share (sh.stop = true ∨ .storeStop ∈ t.ops)

theorem Runs.within (h : Runs cfg beginNs c) (i : Fin cfg.threadCount) :
    Within (cfg.perWorker i) c.shared (c.locals (some i)) := by
  refine h.thread_invariant (R := Within (cfg.perWorker i)) (some i) ?_ ?_ ?_
  · intro w hw
    have hbody : initialBody cfg i = .event w := hw
    unfold initialBody at hbody
    split_ifs at hbody <;> cases hbody <;>
      exact ⟨.inr (EventWorker.inStep_empty rfl rfl rfl rfl), Nat.zero_le _⟩
  · intro c e hc _ ht
    have hruns : Runs cfg beginNs c := hc
    have hseated := hruns.seated i
    generalize c.locals (some i) = t at ht hseated
    obtain ⟨ops, body⟩ := t
    intro w hw
    cases ops with
    | cons op rest =>
      obtain ⟨hin, hcount⟩ := ht w hw
      have hstop := (execOp_exec (some i) op rest c.shared).stop
      exact ⟨hin.imp_left fun hwinding => hwinding.mono hstop, hcount⟩
    | nil =>
      cases body with
      | event old =>
        obtain rfl : (eventStep cfg i e c.shared old).2.2 = w := Body.event.inj hw
        obtain ⟨hin, hcount⟩ := ht old rfl
        refine EventWorker.eventStep_within hseated ⟨hin.imp_left fun hwinding => ?_, hcount⟩
        exact hwinding.mono fun hstop => hstop.resolve_right fun hmem => nomatch hmem
      | main m => cases hw
      | slot s => cases hw
  · intro c j e _ _ _ ht w hw
    obtain ⟨hin, hcount⟩ := ht w hw
    refine ⟨hin.imp_left fun hwinding => ?_, hcount⟩
    exact hwinding.mono (Or.imp_left (step_move cfg j e c.shared _).stop_mono)

/-- **A run never has more connections than it was asked for.** In every state of every run each
worker, and with https each slot, holds no more connections than its share, and all threads
together no more than `concurrency`. -/
theorem connections_le (h : Runs cfg beginNs c) :
    (∀ i : Fin cfg.threadCount, (c.locals (some i)).body.connectionCount ≤ cfg.share i) ∧
      ∑ i : Fin cfg.threadCount, (c.locals (some i)).body.connectionCount
        ≤ cfg.concurrency.toNat := by
  have heach : ∀ i : Fin cfg.threadCount,
      (c.locals (some i)).body.connectionCount ≤ cfg.share i := by
    intro i
    unfold Config.share
    cases hbody : (c.locals (some i)).body with
    | main m => exact Nat.zero_le _
    | event w =>
      rw [if_neg (h.event_pending i hbody).1]
      exact (h.within i w hbody).count
    | slot s =>
      have hp : cfg.protocol = .https := by
        by_contra hp
        exact h.not_slot hp (some i) s hbody
      rw [if_pos hp]
      simp only [Body.connectionCount]
      split <;> simp
  refine ⟨heach, ?_⟩
  calc ∑ i : Fin cfg.threadCount, (c.locals (some i)).body.connectionCount
      ≤ ∑ i : Fin cfg.threadCount, cfg.share i := Finset.sum_le_sum fun i _ => heach i
    _ = cfg.concurrency.toNat := cfg.sum_share

/-- Two connections of one worker, after its first poll. -/
theorem connections_le_two :
    ∑ i : Fin twoUdp.threadCount, (sweptAfterStop.locals (some i)).body.connectionCount ≤ 2 := by
  have hrun : Runs twoUdp 0 sweptAfterStop :=
    Reach.append_run (reachable_run _) _ (runOk_of_forall (fun _ _ _ => trivial) _)
  exact (connections_le hrun).2

end Engine

end TitanBench
