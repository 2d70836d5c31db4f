import TitanBench.EngineSync

/-!
# Responses that close their connection

The parser reads `keep_alive` from the head of a response, and the event loop never looks at it: a
session whose response says close goes back to the send loop like any other.

* `RequestEvent` — a request sent on a connection, a response that closes one.
* `EventWorker.ignoresClose` — the data events after which the session stays on such a connection.
* `Retired` — why no request is sent on a connection any more.
* `close_honoured` — the main result.
-/

namespace TitanBench

open Threads

/-- A request is sent on a connection, or a response is complete whose `keep_alive` is false. -/
inductive RequestEvent
  | sent (id : ℕ)
  | closes (id : ℕ)
  deriving DecidableEq

/-- The worker is done with its poll for this iteration. -/
def EventCtl.afterPoll : EventCtl → Bool
  | .handling _ | .retrying .. | .reconnecting .. | .loopTop | .closing | .returning
  | .exited => true
  | _ => false

/-- The worker is about to issue a request it was granted. -/
def EventCtl.hasGrant : EventCtl → Bool
  | .waiting .. | .sending .. => true
  | _ => false

namespace EventWorker

/-- The bytes `data` complete a response of session `old` that says close. -/
def saysClose (cfg : Config) (data : Bytes) (old : Session) : Bool :=
  cfg.protocol = .http && (old.parser.feed data).2 && (old.parser.feed data).1.done &&
    !(old.parser.feed data).1.response.keepAlive

/-- What the next step of the worker does on a connection. -/
def observe (cfg : Config) (w : EventWorker) : List RequestEvent :=
  match w.ctl with
  | .sending id _ _ =>
    match w.sessions.lookup id with
    | some s => [.sent s.connId]
    | none => []
  | .handling (ev :: _) =>
    match w.sessions.lookup ev.connId with
    | some old =>
      if ev.isError = false ∧ saysClose cfg ev.data old = true then [.closes old.connId] else []
    | none => []
  | _ => []

/-- The next step completes a response that says close, and the batch of events has no error event
of its connection left. -/
def ignoresClose (cfg : Config) (w : EventWorker) : Bool :=
  match w.ctl with
  | .handling (ev :: events) =>
    w.observe cfg ≠ [] && !(events.any fun e => e.isError && e.connId == ev.connId)
  | _ => false

end EventWorker

variable {n : ℕ}

/-- No request is sent on connection `id` any more: the session is gone, or its error event is still
to be handled; or the worker will find the stop flag set, or the quota used up. -/
def Retired (cfg : Config) (sh : Shared n) (ops : List Op) (w : EventWorker) (id : ℕ) : Prop :=
  id ∉ w.sessions ∨ NetWorker.Fails w.ctl.events id ∨
    ((sh.stop = true ∨ .storeStop ∈ ops) ∧ w.ctl.afterPoll = true) ∨
    (cfg.hasRequests = true ∧ cfg.quota ≤ sh.counters .started ∧ w.ctl.hasGrant = false)

namespace EventWorker

section Step

variable {cfg : Config} {i : Fin n} {env : Env} {sh : Shared n} {w : EventWorker} {id share : ℕ}
  {r : Shared n × List Op × EventWorker}

/-- The worker is not about to send on a retired connection. -/
theorem not_sending {now : ℕ} {todo : List ℕ} {s : Session} (hc : w.ctl = .sending id now todo)
    (hl : w.sessions.lookup id = some s) : ¬ Retired cfg sh [] w id := by
  rintro (hout | ⟨ev, hev, -⟩ | ⟨-, hpoll⟩ | ⟨-, -, hgrant⟩)
  · exact hout (mem_sessions hl)
  · rw [hc] at hev
    cases hev
  · rw [hc] at hpoll
    cases hpoll
  · rw [hc] at hgrant
    cases hgrant

/-- A step puts no other session into the map than that of a new connection. -/
theorem Move.mem_sessions (hm : w.Move cfg i env sh r) (hs : w.Seated share)
    (hid : id ∈ r.2.2.sessions) : id ∈ w.sessions ∨ id = w.net.nextConnId := by
  cases hm with
  | opened _ _ hok =>
    have hnext := ((submitConnection_opening cfg env.submit w.net).ok hok).1
    rcases (AList.mem_insert _).mp hid with heq | hid
    · exact .inr (heq.trans hnext)
    · exact .inl hid
  | requested _ hl => exact .inl ((mem_insert_of_mem (EventWorker.mem_sessions hl)).mp hid)
  | errored => exact .inl (AList.mem_erase.mp hid).2
  | @received ev events old _ hl _ =>
    have hkey : (dataEvent cfg env ev.data old).2.connId = ev.connId :=
      (dataEvent_connId cfg env ev.data old).trans (hs.keyed _ _ hl)
    rcases (AList.mem_insert _).mp hid with heq | hid
    · rw [heq, hkey]
      exact .inl (EventWorker.mem_sessions hl)
    · exact .inl (AList.mem_erase.mp hid).2
  | _ => exact .inl hid

/-- An error event that is still to be handled stays so, or it is handled, or the worker is about to
stop the run. -/
theorem Move.fails (hm : w.Move cfg i env sh r) (h : NetWorker.Fails w.ctl.events id) :
    id ∉ r.2.2.sessions ∨ NetWorker.Fails r.2.2.ctl.events id ∨
      (.storeStop ∈ r.2.1 ∧ r.2.2.ctl.afterPoll = true) := by
  have hnone : ∀ {ctl : EventCtl}, w.ctl = ctl → ctl.events ≠ [] := by
    rintro ctl hc hnil
    obtain ⟨ev, hev, -⟩ := h
    rw [hc, hnil] at hev
    cases hev
  cases hm with
  | goes hg =>
    cases hg with
    | @unknown ev events hc hl =>
      rw [hc] at h
      rcases NetWorker.fails_cons.mp h with ⟨-, rfl⟩ | h
      · exact .inl (AList.lookup_eq_none.mp hl)
      · exact .inr (.inl h)
    | enter hc | sweep _ _ hc | swept hc | skip hc | pick hc | gone hc | handled hc | stay hc =>
      exact absurd rfl (hnone hc)
  | opened _ hopens _ =>
    rw [← hopens.events] at h
    exact .inr (.inl h)
  | notOpened => exact .inr (.inr ⟨List.mem_singleton.mpr rfl, rfl⟩)
  | @errored ev events old hc hl _ =>
    rw [hc] at h
    rcases NetWorker.fails_cons.mp h with ⟨-, rfl⟩ | h
    · exact .inl fun hid => (AList.mem_erase.mp hid).1 rfl
    · exact .inr (.inl h)
  | @received ev events old hc _ hdata =>
    rw [hc] at h
    rcases NetWorker.fails_cons.mp h with ⟨herr, -⟩ | h
    · rw [hdata] at herr
      cases herr
    · exact .inr (.inl h)
  | retried hc | givenUp hc =>
    rw [hc] at h
    exact .inr (.inl h)
  | stopped hc | started hc | notStarted hc | acquires hc | refused hc | granted hc | waits _ hc
  | waited _ hc | sent hc | requested hc | sendFailed hc | polled hc | pollFailed hc | closed hc
  | returned hc => exact absurd rfl (hnone hc)

/-- After its poll a worker that finds the stop flag set does not go on to the next iteration. -/
theorem afterPoll_stopped (hstop : sh.stop = true) (h : w.ctl.afterPoll = true) :
    (eventStep cfg i env sh w).2.2.ctl.afterPoll = true := by
  have hm := eventStep_move cfg i env sh w
  by_cases htop : w.ctl = .loopTop
  · have heq : eventStep cfg i env sh w = (sh, [], w.goto .closing) := by
      unfold eventStep
      simp [htop, hstop]
    rw [heq]
    rfl
  generalize eventStep cfg i env sh w = r at hm
  have hnone : ∀ {ctl : EventCtl}, w.ctl = ctl → ctl.afterPoll = true := fun hc => hc ▸ h
  cases hm with
  | goes hg =>
    cases hg with
    | unknown | handled | stay => rfl
    | sweep _ _ hc => exact absurd hc htop
    | enter hc | swept hc | skip hc | pick hc | gone hc =>
      exact absurd (hnone hc) (by simp [EventCtl.afterPoll])
  | opened _ hopens _ =>
    generalize hc : w.ctl = ctl at hopens
    cases hopens with
    | first left => exact absurd (hnone hc) (by simp [EventCtl.afterPoll])
    | again old events => rfl
  | started hc | notStarted hc | acquires hc | refused hc | granted hc | waits _ hc | waited _ hc
  | sent hc | requested hc | sendFailed hc | polled hc | pollFailed hc =>
    exact absurd (hnone hc) (by simp [EventCtl.afterPoll])
  | stopped | notOpened | errored | received | retried | givenUp | closed | returned => rfl

/-- With the quota used up no request is granted. -/
theorem Move.no_grant (hm : w.Move cfg i env sh r) (hreq : cfg.hasRequests = true)
    (hpc : ∀ id pc now todo, w.ctl = .acquiring id pc now todo → pc.Ok cfg)
    (hquota : cfg.quota ≤ sh.counters .started) (h : w.ctl.hasGrant = false) :
    r.2.2.ctl.hasGrant = false := by
  cases hm with
  | goes hg => cases hg <;> rfl
  | opened _ hopens _ => rcases hopens.next with ⟨left, rfl⟩ | ⟨events, rfl⟩ <;> rfl
  | granted hc hq =>
    have hlt := (quotaStep_granted hreq (hpc _ _ _ _ hc) hq).2
    omega
  | waits _ hc | waited _ hc =>
    rw [hc] at h
    cases h
  | _ => rfl

/-- A retired connection stays retired. -/
theorem retired_step (hs : w.Seated share)
    (hpc : cfg.hasRequests = true → ∀ id pc now todo, w.ctl = .acquiring id pc now todo → pc.Ok cfg)
    (hlt : id < w.net.nextConnId) (h : Retired cfg sh [] w id) :
    Retired cfg (eventStep cfg i env sh w).1 (eventStep cfg i env sh w).2.1
      (eventStep cfg i env sh w).2.2 id := by
  have hm := eventStep_move cfg i env sh w
  rcases h with hout | hfails | ⟨hstop | hstore, hpoll⟩ | ⟨hreq, hquota, hgrant⟩
  · refine .inl fun hid => ?_
    rcases hm.mem_sessions hs hid with hid | rfl
    · exact hout hid
    · exact lt_irrefl _ hlt
  · rcases hm.fails hfails with hout | hfails | ⟨hstore, hpoll⟩
    · exact .inl hout
    · exact .inr (.inl hfails)
    · exact .inr (.inr (.inl ⟨.inr hstore, hpoll⟩))
  · exact .inr (.inr (.inl ⟨.inl (hm.stop.trans hstop), afterPoll_stopped hstop hpoll⟩))
  · cases hstore
  · have hle : sh.counters .started ≤ (eventStep cfg i env sh w).1.counters .started :=
      (Engine.Move.event hm).started_le
    exact .inr (.inr (.inr ⟨hreq, hquota.trans hle, hm.no_grant hreq (hpc hreq) hquota hgrant⟩))

theorem Move.nextConnId_le (hm : w.Move cfg i env sh r) :
    w.net.nextConnId ≤ r.2.2.net.nextConnId := by
  cases hm with
  | started | notStarted => exact (NetWorker.start_nextConnId _ _).ge
  | opened | notOpened => exact (submitConnection_opening cfg env.submit w.net).le
  | sent | requested | sendFailed => exact (send_nextConnId cfg env _ w).ge
  | polled | pollFailed => exact (poll_nextConnId env w).ge
  | closed => exact (closeAll_nextConnId env w).ge
  | _ => exact le_rfl

/-- What can be seen of a step. -/
theorem observe_cases (cfg : Config) (hs : w.Seated share) :
    w.observe cfg = [] ∨
      (∃ id now todo s, w.ctl = .sending id now todo ∧ w.sessions.lookup id = some s ∧
        w.observe cfg = [.sent id]) ∨
      ∃ ev events old, w.ctl = .handling (ev :: events) ∧
        w.sessions.lookup ev.connId = some old ∧ ev.isError = false ∧
        w.observe cfg = [.closes ev.connId] := by
  unfold observe
  cases hc : w.ctl with
  | sending id now todo =>
    cases hl : w.sessions.lookup id with
    | none => exact .inl (by simp only [hl])
    | some s =>
      refine .inr (.inl ⟨id, now, todo, s, rfl, hl, ?_⟩)
      simp only [hl, hs.keyed id s hl]
  | handling events =>
    cases events with
    | nil => exact .inl rfl
    | cons ev events =>
      dsimp only
      cases hl : w.sessions.lookup ev.connId with
      | none => exact .inl rfl
      | some old =>
        dsimp only
        by_cases hcond : ev.isError = false ∧ saysClose cfg ev.data old = true
        · rw [if_pos hcond, hs.keyed _ _ hl]
          exact .inr (.inr ⟨ev, events, old, rfl, hl, hcond.1, rfl⟩)
        · exact .inl (if_neg hcond)
  | _ => exact .inl rfl

/-- A response that says close retires its connection, unless that is ignored. -/
theorem retired_closes {ev : RecvEvent} {events : List RecvEvent} {old : Session}
    (hc : w.ctl = .handling (ev :: events)) (hl : w.sessions.lookup ev.connId = some old)
    (hdata : ev.isError = false) (hobs : w.observe cfg = [.closes ev.connId])
    (hheeds : w.ignoresClose cfg = true →
      sh.stop = true ∨ (cfg.hasRequests = true ∧ cfg.quota ≤ sh.counters .started)) :
    Retired cfg (eventStep cfg i env sh w).1 (eventStep cfg i env sh w).2.1
      (eventStep cfg i env sh w).2.2 ev.connId := by
  have hsh : (eventStep cfg i env sh w).1 = sh := by
    unfold eventStep
    simp only [hc]
  have hctl : (eventStep cfg i env sh w).2.2.ctl = .handling events := by
    unfold eventStep handleEvent
    simp only [hc, hl, hdata, Bool.false_eq_true, if_false]
  unfold Retired
  rw [hsh, hctl]
  by_cases hfails : NetWorker.Fails events ev.connId
  · exact .inr (.inl hfails)
  have hignores : w.ignoresClose cfg = true := by
    have hany : (events.any fun e => e.isError && e.connId == ev.connId) = false := by
      rw [List.any_eq_false]
      intro e he herr
      rw [Bool.and_eq_true, beq_iff_eq] at herr
      exact hfails ⟨e, he, herr⟩
    unfold ignoresClose
    rw [hc]
    simp [hobs, hany]
  rcases hheeds hignores with hstop | ⟨hreq, hquota⟩
  · exact .inr (.inr (.inl ⟨.inl hstop, rfl⟩))
  · exact .inr (.inr (.inr ⟨hreq, hquota, rfl⟩))

end Step

end EventWorker

/-! ## Runs -/

/-- What the next step of the thread does on a connection. -/
def Thread.requestEvents (cfg : Config) (t : Thread) : List RequestEvent :=
  match t.ops, t.body with
  | [], .event w => w.observe cfg
  | _, _ => []

def Thread.ignoresClose (cfg : Config) (t : Thread) : Bool :=
  match t.ops, t.body with
  | [], .event w => w.ignoresClose cfg
  | _, _ => false

theorem Retired.mono {cfg : Config} {sh sh' : Shared n} {ops ops' : List Op} {w : EventWorker}
    {id : ℕ} (h : Retired cfg sh ops w id)
    (hstop : sh.stop = true ∨ .storeStop ∈ ops → sh'.stop = true ∨ .storeStop ∈ ops')
    (hle : sh.counters .started ≤ sh'.counters .started) : Retired cfg sh' ops' w id := by
  rcases h with hout | hfails | ⟨hstopped, hpoll⟩ | ⟨hreq, hquota, hgrant⟩
  · exact .inl hout
  · exact .inr (.inl hfails)
  · exact .inr (.inr (.inl ⟨hstop hstopped, hpoll⟩))
  · exact .inr (.inr (.inr ⟨hreq, hquota.trans hle, hgrant⟩))

/-- No request follows a response that closes its connection. -/
def Honoured (log : List RequestEvent) : Prop :=
  log.Pairwise fun a b => ∀ id, a = .closes id → b ≠ .sent id

instance (log : List RequestEvent) : Decidable (Honoured log) :=
  haveI : DecidableRel fun a b : RequestEvent => ∀ id, a = .closes id → b ≠ .sent id := fun a b =>
    match a with
    | .closes id =>
      decidable_of_iff (b ≠ .sent id) ⟨fun h _ heq => by cases heq; exact h, fun h => h id rfl⟩
    | .sent _ => isTrue fun _ heq => nomatch heq
  List.instDecidablePairwise log

namespace Engine

/-- The log of worker `k`. -/
def requestLog (cfg : Config) (k : Fin n) (c : Conf n) (i : Option (Fin n)) (_ : Env) :
    List RequestEvent :=
  if i = some k then (c.locals i).requestEvents cfg else []

/-- The steps that complete no response that says close, or whose batch of events brings the error
event of its connection too; or the stop flag is set or the quota used up. -/
def Heeds (cfg : Config) (c : Conf n) (i : Option (Fin n)) (_ : Env) : Prop :=
  (c.locals i).ignoresClose cfg = true →
    c.shared.stop = true ∨ (cfg.hasRequests = true ∧ cfg.quota ≤ c.shared.counters .started)

instance (cfg : Config) (c : Conf n) (i : Option (Fin n)) (e : Env) : Decidable (Heeds cfg c i e) :=
  inferInstanceAs (Decidable (_ → _))

/-- The connections of the log that were closed are retired. -/
structure Heeding (cfg : Config) (sh : Shared n) (t : Thread) (log : List RequestEvent) : Prop where
  honoured : Honoured log
  retired : ∀ w, t.body = .event w → ∀ id, .closes id ∈ log →
    id < w.net.nextConnId ∧ Retired cfg sh t.ops w id

theorem heeding_nil (cfg : Config) (sh : Shared n) (t : Thread) : Heeding cfg sh t [] :=
  ⟨.nil, fun _ _ _ hid => nomatch hid⟩

/-- A step of a worker. -/
theorem Heeding.event {cfg : Config} {k : Fin n} {env : Env} {sh : Shared n} {w : EventWorker}
    {log : List RequestEvent} (h : Heeding cfg sh ⟨[], .event w⟩ log) {share : ℕ}
    (hs : w.Seated share)
    (hpc : cfg.hasRequests = true → ∀ id pc now todo, w.ctl = .acquiring id pc now todo → pc.Ok cfg)
    (hheeds : w.ignoresClose cfg = true →
      sh.stop = true ∨ (cfg.hasRequests = true ∧ cfg.quota ≤ sh.counters .started)) :
    Heeding cfg (eventStep cfg k env sh w).1
      ⟨(eventStep cfg k env sh w).2.1, .event (eventStep cfg k env sh w).2.2⟩
      (log ++ w.observe cfg) := by
  have hle := (EventWorker.eventStep_move cfg k env sh w).nextConnId_le
  have hold : ∀ id, .closes id ∈ log → id < (eventStep cfg k env sh w).2.2.net.nextConnId ∧
      Retired cfg (eventStep cfg k env sh w).1 (eventStep cfg k env sh w).2.1
        (eventStep cfg k env sh w).2.2 id := by
    intro id hid
    obtain ⟨hlt, hretired⟩ := h.retired w rfl id hid
    exact ⟨hlt.trans_le hle, EventWorker.retired_step hs hpc hlt hretired⟩
  rcases w.observe_cases cfg hs with hobs | ⟨id, now, todo, s, hc, hl, hobs⟩ |
    ⟨ev, events, old, hc, hl, hdata, hobs⟩
  · rw [hobs, List.append_nil]
    refine ⟨h.honoured, fun w' hw' => ?_⟩
    cases hw'
    exact hold
  · rw [hobs]
    refine ⟨List.pairwise_append.mpr ⟨h.honoured, List.pairwise_singleton _ _, ?_⟩, ?_⟩
    · rintro a ha b hb id' rfl rfl
      cases List.mem_singleton.mp hb
      exact EventWorker.not_sending hc hl (h.retired w rfl id ha).2
    · intro w' hw' id' hid'
      cases hw'
      rcases List.mem_append.mp hid' with hid' | hid'
      · exact hold id' hid'
      · cases List.mem_singleton.mp hid'
  · rw [hobs]
    refine ⟨List.pairwise_append.mpr ⟨h.honoured, List.pairwise_singleton _ _, ?_⟩, ?_⟩
    · rintro a ha b hb id' rfl rfl
      cases List.mem_singleton.mp hb
    · intro w' hw' id' hid'
      cases hw'
      rcases List.mem_append.mp hid' with hid' | hid'
      · exact hold id' hid'
      · cases List.mem_singleton.mp hid'
        exact ⟨(hs.below _ _ hl).2.trans_le hle,
          EventWorker.retired_closes hc hl hdata hobs hheeds⟩

theorem Runs.acquiring_ok {cfg : Config} {beginNs : ℕ} {c : Conf cfg.threadCount}
    (h : Runs cfg beginNs c) {i : Option (Fin cfg.threadCount)} {w : EventWorker}
    (hw : (c.locals i).body = .event w) (hreq : cfg.hasRequests = true) :
    ∀ id pc now todo, w.ctl = .acquiring id pc now todo → pc.Ok cfg := by
  intro id pc now todo hc
  have hok := (h.quotaInv hreq i).ok
  rw [hw] at hok
  exact quotaOk_acquiring hc hok

/-- **Connection: close.** In every run in which each response that says close comes with the error
event of its connection in the same batch of events, or with the stop flag set or the quota used up,
no worker sends a request on a connection after such a response. -/
theorem close_honoured (cfg : Config) {beginNs : ℕ} (k : Fin cfg.threadCount)
    {c : Conf cfg.threadCount} {log : List RequestEvent}
    (h : Logged (step cfg) (requestLog cfg k) (Heeds cfg) (init cfg beginNs) c log) :
    Honoured log := by
  refine (h.thread_invariant (R := Heeding cfg) (some k) (heeding_nil _ _ _) ?_ ?_
    (fun c j e hj => if_neg hj)).honoured
  · intro c log e hc hheeds ht
    have hruns : Runs cfg beginNs c := hc.reach.reachable
    have hseated := hruns.seated k
    have hok := @Runs.acquiring_ok cfg beginNs c hruns (some k)
    unfold requestLog
    rw [if_pos rfl]
    unfold Heeds at hheeds
    generalize c.locals (some k) = t at hheeds ht hseated hok
    obtain ⟨ops, body⟩ := t
    cases ops with
    | cons op rest =>
      have hx := execOp_exec (some k) op rest c.shared
      rw [show Thread.requestEvents cfg ⟨op :: rest, body⟩ = [] from rfl, List.append_nil]
      refine ⟨ht.honoured, fun w hw id hid => ?_⟩
      obtain ⟨hlt, hretired⟩ := ht.retired w hw id hid
      exact ⟨hlt, hretired.mono hx.stop (hx.counters_le _)⟩
    | nil =>
      cases body with
      | event w => exact ht.event hseated (hok rfl) hheeds
      | main m => exact ⟨by simpa [Thread.requestEvents] using ht.honoured, fun w hw => nomatch hw⟩
      | slot s => exact ⟨by simpa [Thread.requestEvents] using ht.honoured, fun w hw => nomatch hw⟩
  · intro c log j e hc _ _ ht
    have hm := step_move cfg j e c.shared (c.locals j)
    refine ⟨ht.honoured, fun w hw id hid => ?_⟩
    obtain ⟨hlt, hretired⟩ := ht.retired w hw id hid
    exact ⟨hlt, hretired.mono (Or.imp_left hm.stop_mono) hm.started_le⟩

/-- A complete response without a body, after which the server closes the connection. -/
def closeResponse : Bytes :=
  ascii "HTTP/1.1 200 OK\r\nConnection: close\r\nContent-Length: 0\r\n\r\n"

theorem threadCount_twoRequests : 0 < twoRequests.threadCount := by decide

/-- What the worker of `twoRequests` does on its connections in a run. -/
def requestsIn (xs : List (Option (Fin twoRequests.threadCount) × Env)) : List RequestEvent :=
  (init twoRequests 0).log (step twoRequests) (requestLog twoRequests ⟨0, threadCount_twoRequests⟩)
    xs

/-- The poll that brings the response also finds the connection closed: it is given up. -/
theorem close_honoured_closed :
    .closes 1 ∈ requestsIn (exchange [closeResponse, []] 30) ∧
      Honoured (requestsIn (exchange [closeResponse, []] 30)) := by
  have hrun : RunOk (step twoRequests) (Heeds twoRequests) (init twoRequests 0)
      (exchange [closeResponse, []] 30) := by
    decide +kernel
  exact ⟨by decide +kernel, close_honoured twoRequests ⟨0, by decide⟩ (logged_run _ hrun)⟩

/-- The poll brings the response alone: the second request is sent on the same connection. -/
theorem close_ignored :
    ¬ ∀ c log, Logged (step twoRequests) (requestLog twoRequests ⟨0, by decide⟩)
      (fun _ _ _ => True) (init twoRequests 0) c log → Honoured log := by
  intro h
  have hrun : RunOk (step twoRequests) (fun _ _ _ => True) (init twoRequests 0)
      (exchange [closeResponse] 18) := by
    decide +kernel
  have hlog : requestsIn (exchange [closeResponse] 18) = [.sent 1, .closes 1, .sent 1] := by
    decide +kernel
  have hbroken : ¬ Honoured [.sent 1, .closes 1, .sent 1] := by decide
  exact hbroken (hlog ▸ h _ _ (logged_run _ hrun))

end Engine

end TitanBench
