import TitanBench.EngineQuota

/-!
# Completions are charged to requests

With http a request is in flight from its `Send` until an event completes it. A data event
completes whatever the session has in flight, and it does so too when nothing is: then a
completion is counted that no request was sent for.

* `Thread.phantom` — the thread is about to handle such an event.
* `Move.charge` — every other step pays for each completion with a request in flight or a `Send`.
* `completed_le_started` — the runs without such events.
* `double_reply` — a run with one: the server answers one request twice.
-/

namespace TitanBench

open Threads

/-! ## Requests in flight -/

def Session.load (s : Session) : ℕ := if s.inFlight then 1 else 0

/-- The number of sessions with a request in flight. -/
def inFlightOf (sessions : Table ℕ Session) : ℕ := sessions.total fun _ s => s.load

def Body.inFlight : Body → ℕ
  | .event w => inFlightOf w.sessions
  | _ => 0

theorem inFlightOf_erase {sessions : Table ℕ Session} {id : ℕ} {s : Session}
    (h : sessions.lookup id = some s) :
    inFlightOf (sessions.erase id) + s.load = inFlightOf sessions := by
  unfold inFlightOf
  rw [← Table.total_erase (fun _ (s : Session) => s.load) sessions id, Table.weight_eq h]

theorem inFlightOf_insert (sessions : Table ℕ Session) (id : ℕ) (s : Session) :
    inFlightOf (sessions.insert id s) ≤ inFlightOf sessions + s.load :=
  Table.total_insert_le _ sessions id s

/-! ## What the branches of the loop complete -/

namespace EventWorker

theorem completed_sent (nowNs laterNs size : ℕ) :
    owed .completed (.add .bytesSent size :: sendDoneOps nowNs laterNs size) = 1 := by
  simp [sendDoneOps]

theorem completed_sendFailed (nowNs : ℕ) (ec : NetErrc) :
    owed .completed (sendFailedOps nowNs ec) = 1 := by
  simp [sendFailedOps]

/-- A connection error completes what is in flight. -/
theorem completed_error (cfg : Config) (env : Env) (ec : NetErrc) (old : Session) :
    owed .completed (errorOps cfg env ec old) = old.load := by
  unfold errorOps Session.load
  split_ifs <;> simp

theorem completed_parseError (cfg : Config) (env : Env) (data : Bytes) (s : Session) :
    owed .completed (parseErrorOps cfg env data s) = 1 := by
  simp [parseErrorOps]

theorem completed_response (cfg : Config) (env : Env) (data : Bytes) (s : Session) (status : ℤ) :
    owed .completed (responseOps cfg env data s status) = 1 := by
  simp [owed_response]

/-- The bytes of a data event are counted besides. -/
theorem completed_received (size : ℕ) (ops : List Op) :
    owed .completed (.add .bytesReceived size :: ops) = owed .completed ops := by
  simp

end EventWorker

/-! ## Events with nothing in flight -/

/-- The data event to be handled next is about a session with nothing in flight, and it makes
`Feed` fail or ends a response. -/
def EventWorker.phantom (w : EventWorker) : Bool :=
  match w.ctl with
  | .handling (ev :: _) =>
    match w.sessions.lookup ev.connId with
    | some old =>
      let (parser, ok) := old.parser.feed ev.data
      !ev.isError && !old.inFlight && (!ok || parser.done)
    | none => false
  | _ => false

def Thread.phantom (t : Thread) : Bool :=
  match t with
  | ⟨[], .event w⟩ => w.phantom
  | _ => false

theorem phantom_handling {w : EventWorker} {ev : RecvEvent} {events : List RecvEvent}
    {old : Session} (hc : w.ctl = .handling (ev :: events))
    (hl : w.sessions.lookup ev.connId = some old) :
    w.phantom = (!ev.isError && !old.inFlight
      && (!(old.parser.feed ev.data).2 || (old.parser.feed ev.data).1.done)) := by
  simp [EventWorker.phantom, hc, hl]

/-- What a data event completes was in flight. -/
theorem dataEvent_charge (cfg : Config) (env : Env) {data : Bytes} {old : Session}
    (h : (!old.inFlight && (!(old.parser.feed data).2 || (old.parser.feed data).1.done)) = false) :
    owed .completed (EventWorker.dataEvent cfg env data old).1
      + (EventWorker.dataEvent cfg env data old).2.load ≤ old.load := by
  have hd := EventWorker.dataEvent_digested cfg env data old
  generalize EventWorker.dataEvent cfg env data old = r at hd
  cases hd with
  | other => simp
  | awaited _ _ _ => exact (Nat.zero_add _).le
  | rejected _ hok =>
    have hin : old.inFlight = true := by simpa [hok] using h
    rw [EventWorker.completed_parseError]
    simp [Session.load, hin]
  | finished _ hok hdone =>
    have hin : old.inFlight = true := by simpa [hok, hdone] using h
    rw [EventWorker.completed_response]
    simp [Session.load, hin]

namespace Engine

variable {cfg : Config} {n : ℕ} {env : Env} {sh : Shared n}

/-! ## One step -/

/-- With nothing in flight at the end of the step that was not before. -/
theorem charge_event {i : Fin n} {w : EventWorker} {r : Shared n × List Op × EventWorker}
    (hm : w.Move cfg i env sh r) (hok : w.phantom = false) :
    owed .completed r.2.1 + inFlightOf r.2.2.sessions + w.sends
      ≤ inFlightOf w.sessions + r.2.2.sends := by
  cases hm with
  | opened session hopens =>
    refine Nat.add_le_add_right ?_ _
    simp only [weigh_nil, Nat.zero_add]
    exact inFlightOf_insert _ _ _
  | sent _ _ _ _ =>
    have howed :=
      EventWorker.completed_sent env.nowNs env.laterNs (buildPayload cfg).length
    dsimp only
    omega
  | @requested id now todo s hc hl _ _ =>
    have hins := inFlightOf_insert w.sessions id
      { s with inFlight := true, requestBeginNs := env.nowNs }
    have hload : Session.load { s with inFlight := true, requestBeginNs := env.nowNs } = 1 := rfl
    have howed : owed .completed [.add .bytesSent (buildPayload cfg).length] = 0 := rfl
    dsimp only
    omega
  | @sendFailed id now todo s _ _ _ =>
    have howed := EventWorker.completed_sendFailed env.nowNs
      (w.net.send s.connId (buildPayload cfg) env.submit).2
    dsimp only
    omega
  | @errored ev events old hc hl herr =>
    have herase := inFlightOf_erase hl
    have howed := EventWorker.completed_error cfg env ev.error old
    dsimp only
    omega
  | @received ev events old hc hl herr =>
    have herase := inFlightOf_erase hl
    have hins := inFlightOf_insert (w.sessions.erase ev.connId)
      (EventWorker.dataEvent cfg env ev.data old).2.connId
      (EventWorker.dataEvent cfg env ev.data old).2
    rw [phantom_handling hc hl, herr, Bool.not_false, Bool.true_and] at hok
    have hdata := dataEvent_charge cfg env hok
    have howed := EventWorker.completed_received ev.data.length
      (EventWorker.dataEvent cfg env ev.data old).1
    dsimp only
    omega
  | _ =>
    show 0 + inFlightOf w.sessions + w.sends ≤ inFlightOf w.sessions + w.sends
    omega

/-- Each completion is paid with a request in flight, or with a `Send` that did not go in
flight. -/
theorem Move.charge {i : Option (Fin n)} {t : Thread} {r : Shared n × Thread}
    (hm : Move cfg env sh i t r) (hslot : ∀ s, t.body ≠ .slot s) (hok : t.phantom = false) :
    r.1.counters .completed + (owed .completed r.2.ops + r.2.body.inFlight) + t.body.sends
      ≤ sh.counters .completed + (owed .completed t.ops + t.body.inFlight) + r.2.body.sends := by
  cases hm with
  | op body hx =>
    have hpays := hx.pays .completed
    dsimp only
    omega
  | @main m r hr =>
    have hf := mainStep_frame cfg env sh m
    rw [← hr] at hf
    rw [hf.counters]
    rcases hf.ops with hops | hops <;> rw [hops] <;> exact le_rfl
  | @event i w r hm =>
    have hcharge := charge_event hm hok
    have hcount := hm.counters (c := .completed) (fun h => nomatch h)
    show r.1.counters .completed + (owed .completed r.2.1 + inFlightOf r.2.2.sessions) + w.sends
      ≤ sh.counters .completed + (0 + inFlightOf w.sessions) + r.2.2.sends
    omega
  | slot => exact absurd rfl (hslot _)
  | stay => exact le_rfl

/-! ## Runs without phantom completions -/

/-- The steps that handle no event as in `Thread.phantom`. -/
def Charged (c : Conf n) (i : Option (Fin n)) (_ : Env) : Prop := (c.locals i).phantom = false

instance (c : Conf n) (i : Option (Fin n)) (e : Env) : Decidable (Charged c i e) :=
  inferInstanceAs (Decidable (_ = _))

theorem inFlight_init (cfg : Config) (beginNs : ℕ) (i : Option (Fin cfg.threadCount)) :
    owed .completed ((init cfg beginNs).locals i).ops + ((init cfg beginNs).locals i).body.inFlight
      = 0 := by
  cases i with
  | none => rfl
  | some i =>
    show 0 + (initialBody cfg i).inFlight = 0
    unfold initialBody
    split_ifs <;> rfl

/-- **No phantom completions.** In requests mode with http, in every run whose data events about
sessions with nothing in flight neither make `Feed` fail nor end a response: the completions so
far, those about to be counted and the requests in flight are no more than the requests issued, and
these no more than `started_requests`. So the run is not ended before the quota was issued. -/
theorem completed_le_started (cfg : Config) (hp : cfg.protocol = .http)
    (hreq : cfg.hasRequests = true) {beginNs : ℕ} {c : Conf cfg.threadCount}
    (h : Reach (step cfg) Charged (init cfg beginNs) c) :
    c.shared.counters .completed + ∑ i, (owed .completed (c.locals i).ops
        + (c.locals i).body.inFlight) ≤ ∑ i, (c.locals i).body.sends ∧
      ∑ i, (c.locals i).body.sends ≤ c.shared.counters .started ∧
      c.shared.counters .completed ≤ c.shared.counters .started ∧
      ∀ env m, cfg.hasDuration = false → Main.finished cfg env c.shared m = true →
        cfg.quota ≤ ∑ i, (c.locals i).body.sends := by
  have hsends := Runs.sends_le_started hreq h.reachable
  have hcharge := h.account_le (v := fun sh => sh.counters .completed) (u := fun _ => 0)
    (p := fun _ t => owed .completed t.ops + t.body.inFlight) (q := fun _ t => t.body.sends)
    (by simp only [inFlight_init, Finset.sum_const_zero]; exact Nat.zero_le _)
    fun c i e hc hok => by
      have hslot := Runs.not_slot (by rw [hp]; decide) hc.reachable i
      have hs := (step_move cfg i e c.shared (c.locals i)).charge hslot hok
      omega
  rw [Nat.zero_add] at hcharge
  refine ⟨hcharge, hsends, ?_, fun env m hd hm => ?_⟩
  · omega
  · unfold Main.finished at hm
    rw [if_neg (by simp [hd]), if_pos hreq] at hm
    have hq := of_decide_eq_true hm
    omega

/-! ## One request answered twice -/

/-- One connection and two requests. -/
def twoRequests : Config where
  concurrency := 1
  requests := 2
  protocol := .http
  host := ascii "localhost"
  port := 80
  hasRequests := true

/-- A complete response without a body. -/
def okResponse : Bytes := ascii "HTTP/1.1 200 OK\r\nContent-Length: 0\r\n\r\n"

def firstWorker : Option (Fin twoRequests.threadCount) := some ⟨0, by decide⟩

/-- The worker connects and sends its first request, then a poll brings `replies`, one for each
call of `recv`, and the worker takes `steps` further steps. -/
def exchange (replies : List Bytes) (steps : ℕ) :
    List (Option (Fin twoRequests.threadCount) × Env) :=
  let go : Option (Fin twoRequests.threadCount) × Env := (firstWorker, {})
  let ready : ReadyEvent :=
    { fd := 5
      mask := { epollIn := true, epollOut := true }
      sends := [.accepted 1000]
      recvs := replies.map .data ++ [.wouldBlock] }
  let poll : Env :=
    { poll := { create := fun _ => { socketFd := some 5 }, wait := .ready [ready] } }
  List.replicate 13 go ++ [(firstWorker, poll)] ++ List.replicate steps go

/-- The server answers the first request once: it is charged. -/
theorem completed_le_started_single_reply :
    ((init twoRequests 0).run (step twoRequests) (exchange [okResponse] 12)).shared.counters
        .completed = 1 ∧
      1 ≤ ((init twoRequests 0).run (step twoRequests)
        (exchange [okResponse] 12)).shared.counters .started := by
  have hrun : RunOk (step twoRequests) Charged (init twoRequests 0) (exchange [okResponse] 12) := by
    decide +kernel
  have hle := (completed_le_started twoRequests rfl rfl (reach_run _ hrun)).2.2.1
  have hone : ((init twoRequests 0).run (step twoRequests)
      (exchange [okResponse] 12)).shared.counters .completed = 1 := by decide +kernel
  rw [hone] at hle
  exact ⟨hone, hle⟩

/-- The server answers the first request twice: both answers are counted, and the main loop's test
ends the run although one of the two requests was never sent. -/
theorem double_reply :
    (¬ ∀ c, Runs twoRequests 0 c →
      c.shared.counters .completed ≤ c.shared.counters .started) ∧
    ¬ ∀ c, Runs twoRequests 0 c → ∀ env m, Main.finished twoRequests env c.shared m = true →
      twoRequests.quota ≤ ∑ i, (c.locals i).body.sends := by
  have hrun : Runs twoRequests 0 ((init twoRequests 0).run (step twoRequests)
      (exchange [okResponse, okResponse] 12)) := reachable_run _
  refine ⟨fun h => absurd (h _ hrun) (by decide +kernel), fun h => ?_⟩
  exact absurd (h _ hrun {} {} (by decide +kernel)) (by decide +kernel)

end Engine

end TitanBench
