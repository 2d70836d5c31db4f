import TitanBench.EngineNetwork
import TitanBench.EngineParser
import TitanBench.NetworkRequests

/-!
# The requests on the wire

Every worker sends one payload again and again. Whatever fails and is retried around it, what a
connection carries are whole copies of the payload, one after the other, of which only the last one
may be cut off.

* `Polling.entered_of_payload` — what a step enters into the command queue is what it submits.
* `EventWorker.netSteps_payload` — a worker submits nothing but its payload.
* `requests_on_wire` — the copies on a connection.
* `EventWorker.OneAtATime` — with http, a request is entered only when the one before is answered;
  `Move.oneAtATime`.
* `one_request_at_a_time` — so there is one copy more at most than there are answers.
-/

namespace TitanBench

open Threads

namespace NetWorker

/-- The payload a step submits. -/
def Step.payload? : Step → Option Bytes
  | .submit (.send _ payload) _ => some payload
  | _ => none

namespace Polling

theorem entered_submit (p : Polling) (cmd : Command) (sys : SubmitSys) (id : ℕ) :
    (entered id (p, .submit cmd sys)).Sublist (cmd.payloadTo id).toList := by
  cases cmd with
  | send k payload =>
    simp only [entered, submit, NetWorker.send]
    by_cases hk : k = id <;> split_ifs <;> simp [enqueueCommand, Command.payloadTo, hk]
  | close k =>
    simp only [entered, submit, closeConnection]
    split_ifs <;> simp [enqueueCommand, Command.payloadTo]
  | createTcp k endpoint timeoutMs =>
    simp only [entered, submit, createTcpConnection]
    split_ifs <;> simp [enqueueCommand, Command.payloadTo]
  | createUdp k endpoint =>
    simp only [entered, submit, createUdpConnection]
    split_ifs <;> simp [enqueueCommand, Command.payloadTo]

/-- What a step enters is what it submits. -/
theorem entered_of_payload {x : Polling × Step} {id : ℕ} {payload : Bytes}
    (h : payload ∈ entered id x) : x.2.payload? = some payload := by
  obtain ⟨p, s⟩ := x
  cases s with
  | submit cmd sys =>
    have hmem := (entered_submit p cmd sys id).subset h
    cases cmd with
    | send k q =>
      simp only [Command.payloadTo] at hmem
      split_ifs at hmem
      · have heq : payload = q := by simpa using hmem
        rw [heq]
        rfl
      · cases hmem
    | _ => cases hmem
  | _ => cases h

theorem entered_eq_nil {x : Polling × Step} (h : x.2.payload? = none) (id : ℕ) :
    entered id x = [] := by
  refine List.eq_nil_iff_forall_not_mem.mpr fun payload hmem => ?_
  rw [entered_of_payload hmem] at h
  cases h

/-- A poll submits nothing. -/
theorem pollSteps_payload (sys : PollSys) (w : NetWorker) {s : Step} (hs : s ∈ pollSteps sys w) :
    s.payload? = none := by
  have hprocess : ∀ (create : ℕ → CreateSys) (w : NetWorker), ∀ s ∈ processSteps create w,
      s.payload? = none := by
    intro create w s hs
    rcases List.mem_cons.mp hs with rfl | hs
    · rfl
    · obtain ⟨_, -, rfl⟩ := List.mem_map.mp hs
      rfl
  have hready : ∀ (events : List ReadyEvent) (w : NetWorker), ∀ s ∈ readySteps w events,
      s.payload? = none := by
    intro events
    induction events with
    | nil => exact fun _ _ hs => absurd hs List.not_mem_nil
    | cons ev events ih =>
      intro w s hs
      unfold readySteps at hs
      rcases List.mem_append.mp hs with hs | hs
      · split_ifs at hs
        · exact hprocess _ _ s hs
        · rw [List.mem_singleton.mp hs]
          rfl
      · exact ih _ s hs
  unfold pollSteps at hs
  split_ifs at hs with hstart
  · cases hs
  · rcases List.mem_append.mp hs with hs | hs
    · rcases List.mem_append.mp hs with hs | hs
      · exact hprocess _ _ s hs
      · rw [List.mem_singleton.mp hs]
        rfl
    · cases hwait : sys.wait with
      | ready events =>
        rw [hwait] at hs
        rcases List.mem_append.mp hs with hs | hs
        · exact hready _ _ s hs
        · rw [List.mem_singleton.mp hs]
          rfl
      | _ =>
        rw [hwait] at hs
        cases hs

end Polling

end NetWorker

open NetWorker

variable {n : ℕ}

namespace EventWorker

variable {cfg : Config} {i : Fin n} {env : Env} {sh : Shared n} {w : EventWorker}

theorem openingCommand_payload (cfg : Config) (sys : SubmitSys) :
    (NetWorker.Step.submit (openingCommand cfg) sys).payload? = none := by
  unfold openingCommand
  split_ifs <;> rfl

/-- A worker submits its payload, and only when it sends. -/
theorem netSteps_payload {s : NetWorker.Step} (hs : s ∈ w.netSteps cfg env) {payload : Bytes}
    (hpayload : s.payload? = some payload) :
    payload = buildPayload cfg ∧ ∃ id now todo, w.ctl = .sending id now todo := by
  unfold netSteps at hs
  cases hc : w.ctl with
  | sending id now todo =>
    refine ⟨?_, id, now, todo, rfl⟩
    rw [hc] at hs
    cases hl : w.sessions.lookup id with
    | none =>
      simp only [hl] at hs
      cases hs
    | some session =>
      simp only [hl] at hs
      rw [List.mem_singleton.mp hs] at hpayload
      exact (Option.some.inj hpayload).symm
  | start =>
    rw [hc] at hs
    rw [List.mem_singleton.mp hs] at hpayload
    cases hpayload
  | connecting left =>
    rw [hc] at hs
    cases left with
    | zero => cases hs
    | succ left =>
      rw [List.mem_singleton.mp hs, openingCommand_payload] at hpayload
      cases hpayload
  | reconnecting old events =>
    rw [hc] at hs
    rw [List.mem_singleton.mp hs, openingCommand_payload] at hpayload
    cases hpayload
  | polling =>
    rw [hc] at hs
    rcases List.mem_cons.mp hs with rfl | hs
    · cases hpayload
    · rw [Polling.pollSteps_payload _ _ hs] at hpayload
      cases hpayload
  | closing =>
    rw [hc] at hs
    rcases List.mem_append.mp hs with hs | hs
    · obtain ⟨id, -, rfl⟩ := List.mem_map.mp hs
      cases hpayload
    · rw [List.mem_singleton.mp hs] at hpayload
      cases hpayload
  | _ =>
    rw [hc] at hs
    cases hs

/-! ## One request at a time -/

/-- The payloads for connection `id` that the next step of the worker enters. -/
def enters (cfg : Config) (env : Env) (id : ℕ) (w : EventWorker) : List Bytes :=
  (Polling.visits { net := w.net } (w.netSteps cfg env)).flatMap (Polling.entered id)

/-- The connection whose request is over with the next step: the parser has finished its response or
rejected it. -/
def answers (cfg : Config) (env : Env) (w : EventWorker) : List ℕ :=
  match w.ctl with
  | .handling (ev :: _) =>
    match w.sessions.lookup ev.connId with
    | some old =>
      if ev.isError = false ∧ old.inFlight = true ∧
          (dataEvent cfg env ev.data old).2.inFlight = false then [ev.connId]
      else []
    | none => []
  | _ => []

/-- With `asked` requests entered for each connection and `answered` of them over: what is asked
beyond that is in flight, and is one request at most. -/
structure OneAtATime (asked answered : ℕ → ℕ) (w : EventWorker) : Prop where
  session : w.sessions.All fun id s => asked id = answered id + s.load
  most : ∀ id, asked id ≤ answered id + 1
  fresh : ∀ id, w.net.nextConnId ≤ id → asked id = 0 ∧ answered id = 0

variable {asked answered asked' answered' : ℕ → ℕ} {w' : EventWorker}

theorem enters_eq_nil (h : ∀ id now todo, w.ctl ≠ .sending id now todo) (id : ℕ) :
    w.enters cfg env id = [] := by
  refine List.flatMap_eq_nil_iff.mpr fun x hx => Polling.entered_eq_nil ?_ id
  obtain ⟨before, after, hsteps, -⟩ := Mealy.mem_visits hx
  cases hpayload : x.2.payload? with
  | none => rfl
  | some payload =>
    have hmem : x.2 ∈ w.netSteps cfg env := by
      rw [hsteps]
      exact List.mem_append_right _ List.mem_cons_self
    obtain ⟨-, k, now, todo, hc⟩ := netSteps_payload hmem hpayload
    exact absurd hc (h k now todo)

/-- A `Send` whose wake-up does not fail enters its payload exactly when it succeeds. -/
theorem enters_sending {k now : ℕ} {todo : List ℕ} {s : Session}
    (hc : w.ctl = .sending k now todo) (hl : w.sessions.lookup k = some s)
    (hwake : env.submit.wake = true) (id : ℕ) :
    (w.enters cfg env id).length
      = if (w.net.send s.connId (buildPayload cfg) env.submit).2 = .ok ∧ s.connId = id then 1
        else 0 := by
  have hone : w.enters cfg env id = Polling.entered id
      ({ net := w.net }, .submit (.send s.connId (buildPayload cfg)) env.submit) := by
    simp [enters, netSteps, hc, hl]
  rw [hone]
  simp only [Polling.entered, NetWorker.submit, NetWorker.send]
  by_cases hid : s.connId = id <;> split_ifs <;>
    simp_all [NetWorker.enqueueCommand, Command.payloadTo]

theorem answers_eq_nil (h : ∀ ev events, w.ctl ≠ .handling (ev :: events)) :
    w.answers cfg env = [] := by
  unfold answers
  cases hc : w.ctl with
  | handling events =>
    cases events with
    | nil => rfl
    | cons ev events => exact absurd hc (h ev events)
  | _ => rfl

theorem OneAtATime.same (h : OneAtATime asked answered w) (hs : w'.sessions = w.sessions)
    (hn : w.net.nextConnId ≤ w'.net.nextConnId) : OneAtATime asked answered w' := by
  refine ⟨?_, h.most, fun id hid => h.fresh id (hn.trans hid)⟩
  rw [hs]
  exact h.session

/-- A session is put into the map, or back into it. -/
theorem OneAtATime.put (h : OneAtATime asked answered w) {sessions : Table ℕ Session} {id : ℕ}
    {s : Session} (hsessions : sessions.All fun id s => asked id = answered id + s.load)
    (hs : w'.sessions = sessions.insert id s) (hid : asked' id = answered' id + s.load)
    (hother : ∀ k, k ≠ id → asked' k = asked k ∧ answered' k = answered k)
    (hn : w.net.nextConnId ≤ w'.net.nextConnId) (hlt : id < w'.net.nextConnId) :
    OneAtATime asked' answered' w' := by
  have hload : s.load ≤ 1 := by
    unfold Session.load
    split_ifs <;> omega
  refine ⟨?_, fun k => ?_, fun k hk => ?_⟩
  · intro k v hl
    rw [hs] at hl
    by_cases hk : k = id
    · subst hk
      rw [AList.lookup_insert] at hl
      cases hl
      exact hid
    · rw [AList.lookup_insert_ne hk] at hl
      rw [(hother k hk).1, (hother k hk).2]
      exact hsessions k v hl
  · by_cases hk : k = id
    · subst hk
      omega
    · rw [(hother k hk).1, (hother k hk).2]
      exact h.most k
  · have hne : k ≠ id := by omega
    rw [(hother k hne).1, (hother k hne).2]
    exact h.fresh k (hn.trans hk)

/-- **Every step** keeps it. -/
theorem Move.oneAtATime {share : ℕ} {r : Shared n × List Op × EventWorker}
    (hp : cfg.protocol = .http) (hwake : env.submit.wake = true) (hseated : w.Seated share)
    (hm : w.Move cfg i env sh r) (h : OneAtATime asked answered w) :
    OneAtATime (fun id => asked id + (w.enters cfg env id).length)
      (fun id => answered id + (w.answers cfg env).count id) r.2.2 := by
  have hquiet : (∀ id, w.enters cfg env id = []) → w.answers cfg env = [] →
      OneAtATime asked answered r.2.2 →
      OneAtATime (fun id => asked id + (w.enters cfg env id).length)
        (fun id => answered id + (w.answers cfg env).count id) r.2.2 := by
    intro henters hanswers hstep
    simpa only [henters, hanswers, List.length_nil, List.count_nil, Nat.add_zero] using hstep
  cases hm with
  | goes hg =>
    refine hquiet ?_ ?_ (h.same rfl le_rfl)
    · intro id
      cases hg with
      | gone hc hl => simp [enters, netSteps, hc, hl]
      | enter hc | sweep _ _ hc | swept hc | skip hc | pick hc | handled hc | unknown hc
      | stay hc =>
        exact enters_eq_nil (by simp [hc]) id
    · cases hg with
      | unknown hc hl => simp [answers, hc, hl]
      | enter hc | sweep _ _ hc | swept hc | skip hc | pick hc | gone hc | handled hc | stay hc =>
        exact answers_eq_nil (by simp [hc])
  | @opened next session hopens hok =>
    have hopening := submitConnection_opening cfg env.submit w.net
    obtain ⟨hid, hnext⟩ := hopening.ok hok
    obtain ⟨hasked, hanswered⟩ := h.fresh _ hid.ge
    refine hquiet ?_ ?_ (h.put h.session rfl ?_ (fun _ _ => ⟨rfl, rfl⟩) hopening.le ?_)
    · refine enters_eq_nil fun id now todo hc => ?_
      rw [hc] at hopens
      cases hopens
    · refine answers_eq_nil fun ev events hc => ?_
      rw [hc] at hopens
      cases hopens
    · rw [hasked, hanswered]
      rfl
    · show (submitConnection cfg env.submit w.net).2.2
        < (submitConnection cfg env.submit w.net).1.nextConnId
      omega
  | notOpened hopens =>
    refine hquiet ?_ ?_ (h.same rfl (submitConnection_opening cfg env.submit w.net).le)
    · refine enters_eq_nil fun id now todo hc => ?_
      rw [hc] at hopens
      cases hopens
    · refine answers_eq_nil fun ev events hc => ?_
      rw [hc] at hopens
      cases hopens
  | sent _ _ _ htcp => simp [hp] at htcp
  | @requested id now todo s hc hl hok =>
    have hkey : s.connId = id := hseated.keyed id s hl
    obtain ⟨s', hl', hidle⟩ := hseated.picked id (by simp [picked, hc])
    rw [hl] at hl'
    cases hl'
    have hanswers : w.answers cfg env = [] := answers_eq_nil (by simp [hc])
    have hsession : asked id = answered id + s.load := h.session id s hl
    have hsend := send_nextConnId cfg env s.connId w
    refine h.put h.session rfl ?_ (fun k hk => ?_) hsend.ge
      ((hseated.below id s hl).2.trans_le hsend.ge)
    · rw [enters_sending hc hl hwake, if_pos ⟨hok, hkey⟩, hanswers]
      simpa [Session.load, hidle] using hsession
    · rw [enters_sending hc hl hwake, if_neg fun h => hk (h.2.symm.trans hkey), hanswers]
      exact ⟨rfl, rfl⟩
  | @sendFailed id now todo s hc hl hfail =>
    refine hquiet (fun k => ?_) (answers_eq_nil (by simp [hc]))
      (h.same rfl (send_nextConnId cfg env s.connId w).ge)
    rw [← List.length_eq_zero_iff, enters_sending hc hl hwake, if_neg fun h => hfail h.1]
  | polled hc | pollFailed hc =>
    exact hquiet (enters_eq_nil (by simp [hc])) (answers_eq_nil (by simp [hc]))
      (h.same rfl (poll_nextConnId env w).ge)
  | @errored ev events old hc hl herr =>
    refine hquiet (enters_eq_nil (by simp [hc])) (by simp [answers, hc, hl, herr]) ?_
    exact ⟨h.session.erase _, h.most, h.fresh⟩
  | @received ev events old hc hl hdata =>
    have henters : ∀ id, w.enters cfg env id = [] := enters_eq_nil (by simp [hc])
    have hkey : (dataEvent cfg env ev.data old).2.connId = ev.connId :=
      (dataEvent_connId cfg env ev.data old).trans (hseated.keyed _ _ hl)
    have hsession : asked ev.connId = answered ev.connId + old.load := h.session _ _ hl
    have hanswers : w.answers cfg env = if old.inFlight = true ∧
        (dataEvent cfg env ev.data old).2.inFlight = false then [ev.connId] else [] := by
      simp [answers, hc, hl, hdata]
    refine h.put (h.session.erase _) rfl ?_ (fun k hk => ?_) le_rfl
      (hkey ▸ (hseated.below _ _ hl).2)
    · rw [hkey, henters, hanswers, List.length_nil, Nat.add_zero, hsession]
      have hidle := @dataEvent_inFlight cfg env ev.data old
      cases hold : old.inFlight with
      | false => simp [Session.load, hold, hidle hold]
      | true =>
        cases hnew : (dataEvent cfg env ev.data old).2.inFlight <;>
          simp [Session.load, hold, hnew]
    · rw [hkey] at hk
      rw [henters, hanswers]
      refine ⟨rfl, ?_⟩
      split_ifs
      · simp [Ne.symm hk]
      · rfl
  | closed hc =>
    exact hquiet (enters_eq_nil (by simp [hc])) (answers_eq_nil (by simp [hc]))
      (h.same rfl (closeAll_nextConnId env w).ge)
  | started hc | notStarted hc =>
    exact hquiet (enters_eq_nil (by simp [hc])) (answers_eq_nil (by simp [hc]))
      (h.same rfl (NetWorker.start_nextConnId _ _).ge)
  | stopped hc | acquires hc | refused hc | granted hc | waits _ hc | waited _ hc | retried hc
  | givenUp hc | returned hc =>
    exact hquiet (enters_eq_nil (by simp [hc])) (answers_eq_nil (by simp [hc]))
      (h.same rfl le_rfl)

end EventWorker

/-- The connection whose request is over with the next step of the thread's own code. -/
def Body.answers (cfg : Config) (env : Env) : Body → List ℕ
  | .event w => w.answers cfg env
  | _ => []

namespace Engine

variable {cfg : Config} {beginNs : ℕ} {c : Conf cfg.threadCount}
  {log : List (Fin cfg.threadCount × NetWorker.Step)}

/-! ## Copies of the payload -/

theorem NetRun.payload (h : NetRun cfg beginNs c log) {i : Fin cfg.threadCount}
    {s : NetWorker.Step} (hs : s ∈ entriesOf i log) {payload : Bytes}
    (hpayload : s.payload? = some payload) : payload = buildPayload cfg := by
  refine h.invariant (I := fun _ log => ∀ s ∈ entriesOf i log, ∀ payload,
    s.payload? = some payload → payload = buildPayload cfg) ?_ ?_ s hs payload hpayload
  · intro s hs
    cases hs
  intro c log j env _ _ ih s hs payload hpayload
  rw [entriesOf_append] at hs
  rcases List.mem_append.mp hs with hs | hs
  · exact ih s hs payload hpayload
  cases j with
  | none => cases hs
  | some j =>
    unfold netSteps at hs
    dsimp only at hs
    split_ifs at hs
    · by_cases hj : j = i
      · subst hj
        rw [entriesOf_self] at hs
        cases hbody : (c.locals (some j)).body with
        | event w =>
          rw [hbody] at hs
          exact (EventWorker.netSteps_payload hs hpayload).1
        | _ =>
          rw [hbody] at hs
          cases hs
      · rw [entriesOf_other hj] at hs
        cases hs
    · cases hs

/-- The payloads entered for a connection in a run. -/
def enteredFor (i : Fin n) (id : ℕ) (log : List (Fin n × NetWorker.Step)) : List Bytes :=
  (visitsOf i log).flatMap (Polling.entered id)

theorem NetRun.entered_eq (h : NetRun cfg beginNs c log) (i : Fin cfg.threadCount) (id : ℕ) :
    ∀ payload ∈ enteredFor i id log, payload = buildPayload cfg := by
  intro payload hmem
  obtain ⟨x, hx, hentered⟩ := List.mem_flatMap.mp hmem
  obtain ⟨before, after, hsteps, -⟩ := Mealy.mem_visits hx
  have hstep : x.2 ∈ entriesOf i log := by
    rw [hsteps]
    exact List.mem_append_right _ List.mem_cons_self
  exact h.payload hstep (Polling.entered_of_payload hentered)

/-- What a connection carries are copies of the payload, no more than were entered. -/
theorem NetRun.copies (h : NetRun cfg beginNs c log) (i : Fin cfg.threadCount) (id : ℕ) :
    ∃ k ≤ (enteredFor i id log).length,
      Polling.queued id (visitsOf i log) = (List.replicate k (buildPayload cfg)).flatten := by
  obtain ⟨done, hqueued, hsub⟩ := Polling.queued_entered (entriesOf i log) id
  have hdone : done.Sublist (enteredFor i id log) := (List.sublist_append_left _ _).trans hsub
  refine ⟨done.length, hdone.length_le, ?_⟩
  have hcopies : done = List.replicate done.length (buildPayload cfg) :=
    List.eq_replicate_of_mem fun payload hmem => h.entered_eq i id payload (hdone.subset hmem)
  rw [← hcopies]
  exact hqueued

/-- **The requests on the wire.** Whatever is retried and reconnected: the bytes `send` took from a
connection are whole copies of the payload and the front of one more, no more of them than the
worker entered for it; and what the connection still holds completes them. -/
theorem requests_on_wire (h : NetRun cfg beginNs c log) (i : Fin cfg.threadCount) (id : ℕ) :
    ∃ k ≤ (enteredFor i id log).length,
      Polling.accepted id (visitsOf i log) <+: (List.replicate k (buildPayload cfg)).flatten ∧
      ∀ conn, (netOf c i).connections.lookup id = some conn →
        Polling.accepted id (visitsOf i log) ++ backlog conn.pendingSend
          = (List.replicate k (buildPayload cfg)).flatten := by
  obtain ⟨k, hk, hqueued⟩ := h.copies i id
  have hstream := (Polling.sent_run (entriesOf i log)).stream id
  rw [h.polling i] at hstream
  refine ⟨k, hk, ?_, fun conn hl => ?_⟩
  · rw [← hqueued]
    exact hstream.front
  · rw [← hqueued]
    exact hstream.rest conn hl

/-- The steps of the network worker in the run of one request. -/
def wireOf (replies : List Bytes) : List (Fin oneHttpRequest.threadCount × NetWorker.Step) :=
  (init oneHttpRequest 0).log (step oneHttpRequest) (netSteps oneHttpRequest) (answeredBy replies)

/-- One copy of the request has left, and nothing of it is kept. -/
theorem requests_on_wire_response :
    Polling.accepted 1 (visitsOf ⟨0, by decide⟩ (wireOf [okResponse]))
        = buildPayload oneHttpRequest ∧
      (enteredFor ⟨0, by decide⟩ 1 (wireOf [okResponse])).length = 1 ∧
      ∃ k ≤ 1, Polling.accepted 1 (visitsOf ⟨0, by decide⟩ (wireOf [okResponse]))
        <+: (List.replicate k (buildPayload oneHttpRequest)).flatten := by
  have hrun : NetRun oneHttpRequest 0 (reported [okResponse]) (wireOf [okResponse]) :=
    logged_run _ (runOk_of_forall (fun _ _ _ => trivial) _)
  have hone : (enteredFor ⟨0, by decide⟩ 1 (wireOf [okResponse])).length = 1 := by decide +kernel
  obtain ⟨k, hk, hfront, -⟩ := requests_on_wire hrun ⟨0, by decide⟩ 1
  exact ⟨by decide +kernel, hone, k, hone ▸ hk, hfront⟩

/-! ## Copies and answers -/

variable {notices : List ((Fin cfg.threadCount × NetWorker.Step) ⊕ (Fin cfg.threadCount × ℕ))}

/-- The ends of requests in a step of the run. -/
def answers (cfg : Config) (c : Conf n) (i : Option (Fin n)) (env : Env) : List (Fin n × ℕ) :=
  match i with
  | some i =>
    if (c.locals (some i)).ops = [] then ((c.locals (some i)).body.answers cfg env).map (i, ·)
    else []
  | none => []

/-- The runs in which no write to a wake descriptor fails, with the steps of the network workers
and the ends of requests. -/
abbrev WireRun (cfg : Config) (beginNs : ℕ) : Conf cfg.threadCount →
    List ((Fin cfg.threadCount × NetWorker.Step) ⊕ (Fin cfg.threadCount × ℕ)) → Prop :=
  Logged (step cfg)
    (fun c i env => (netSteps cfg c i env).map .inl ++ (answers cfg c i env).map .inr)
    (fun _ _ env => env.submit.wake = true) (init cfg beginNs)

/-- The steps of the network workers. -/
def netLog (notices : List ((Fin n × NetWorker.Step) ⊕ (Fin n × ℕ))) :
    List (Fin n × NetWorker.Step) :=
  notices.filterMap Sum.getLeft?

/-- How many requests on connection `id` of worker `i` are over. -/
def answersFor (i : Fin n) (id : ℕ) (notices : List ((Fin n × NetWorker.Step) ⊕ (Fin n × ℕ))) :
    ℕ :=
  (notices.filterMap Sum.getRight?).count (i, id)

theorem netLog_append (notices : List ((Fin n × NetWorker.Step) ⊕ (Fin n × ℕ)))
    (steps : List (Fin n × NetWorker.Step)) (ends : List (Fin n × ℕ)) :
    netLog (notices ++ (steps.map .inl ++ ends.map .inr)) = netLog notices ++ steps := by
  simp [netLog, List.filterMap_map, Function.comp_def]

theorem answersFor_append (i : Fin n) (id : ℕ)
    (notices : List ((Fin n × NetWorker.Step) ⊕ (Fin n × ℕ)))
    (steps : List (Fin n × NetWorker.Step)) (ends : List (Fin n × ℕ)) :
    answersFor i id (notices ++ (steps.map .inl ++ ends.map .inr))
      = answersFor i id notices + ends.count (i, id) := by
  simp [answersFor, List.filterMap_map, Function.comp_def]

theorem WireRun.net (h : WireRun cfg beginNs c notices) :
    NetRun cfg beginNs c (netLog notices) := by
  have hlog : Logged (step cfg) _ (fun _ _ _ => True) (init cfg beginNs) c (netLog notices) :=
    (h.filterMap Sum.getLeft?).mono fun _ _ _ _ _ => trivial
  simpa [List.filterMap_map, Function.comp_def] using hlog

theorem NetRun.entered_own (h : NetRun cfg beginNs c log) (i : Fin cfg.threadCount) (id : ℕ)
    (steps : List NetWorker.Step) :
    enteredFor i id (log ++ steps.map (i, ·)) = enteredFor i id log
      ++ (Polling.visits { net := netOf c i } steps).flatMap (Polling.entered id) := by
  have hrun := h.polling i
  unfold enteredFor visitsOf
  rw [entriesOf_append, entriesOf_self, Polling.visits, Mealy.visits_append, List.flatMap_append]
  exact congrArg (fun p => _ ++ (Polling.visits p steps).flatMap _) hrun

theorem entered_other {i j : Fin n} (hj : j ≠ i) (id : ℕ) (log : List (Fin n × NetWorker.Step))
    (steps : List NetWorker.Step) :
    enteredFor i id (log ++ steps.map (j, ·)) = enteredFor i id log := by
  unfold enteredFor visitsOf
  rw [entriesOf_append, entriesOf_other hj, List.append_nil]

/-- A thread observes nothing of another one. -/
theorem observed_other {i : Fin cfg.threadCount} {j : Option (Fin cfg.threadCount)}
    (hj : j ≠ some i) (c : Conf cfg.threadCount) (env : Env) (id : ℕ)
    (log : List (Fin cfg.threadCount × NetWorker.Step)) :
    enteredFor i id (log ++ netSteps cfg c j env) = enteredFor i id log ∧
      (answers cfg c j env).count (i, id) = 0 := by
  cases j with
  | none => simp [netSteps, answers]
  | some j =>
    have hne : j ≠ i := fun heq => hj (congrArg some heq)
    unfold netSteps answers
    dsimp only
    split_ifs
    · refine ⟨entered_other hne id log _, List.count_eq_zero.mpr fun hmem => ?_⟩
      obtain ⟨k, -, hk⟩ := List.mem_map.mp hmem
      exact hne (Prod.mk.inj hk).1
    · simp

theorem WireRun.oneAtATime (hp : cfg.protocol = .http) (h : WireRun cfg beginNs c notices)
    (i : Fin cfg.threadCount) :
    ∃ w, (c.locals (some i)).body = .event w ∧ w.OneAtATime
      (fun id => (enteredFor i id (netLog notices)).length) fun id => answersFor i id notices := by
  refine h.invariant (I := fun c notices => ∃ w, (c.locals (some i)).body = .event w ∧
    w.OneAtATime (fun id => (enteredFor i id (netLog notices)).length)
      fun id => answersFor i id notices) ?_ ?_
  · have hempty : ∀ w : EventWorker, w.sessions = ∅ →
        w.OneAtATime (fun _ => 0) fun _ => 0 := by
      intro w hs
      refine ⟨?_, fun _ => Nat.zero_le _, fun _ _ => ⟨rfl, rfl⟩⟩
      rw [hs]
      exact Table.all_empty _
    show ∃ w, initialBody cfg i = .event w ∧ _
    unfold initialBody
    rw [if_neg (by simp [hp])]
    split_ifs
    · exact ⟨_, rfl, hempty _ rfl⟩
    · exact ⟨_, rfl, hempty _ rfl⟩
  rintro c notices j env hc hwake ⟨w, hw, hone⟩
  have hnet : NetRun cfg beginNs c (netLog notices) := WireRun.net hc
  by_cases hj : j = some i
  · subst hj
    rw [Conf.step_local_self]
    rcases ht : c.locals (some i) with ⟨ops, body⟩
    rw [ht] at hw
    obtain rfl : body = .event w := hw
    cases ops with
    | cons op rest =>
      refine ⟨w, rfl, ?_⟩
      simpa [netSteps, answers, ht] using hone
    | nil =>
      have hruns : Runs cfg beginNs c := hc.reach.mono fun _ _ _ _ => trivial
      have hseated := hruns.seated_event ht
      have hstep := (w.eventStep_move cfg i env c.shared).oneAtATime hp hwake hseated hone
      refine ⟨(eventStep cfg i env c.shared w).2.2, rfl, ?_⟩
      have hnetOf : netOf c i = w.net := by
        unfold netOf
        rw [ht]
        rfl
      have hsteps : netSteps cfg c (some i) env = (w.netSteps cfg env).map (i, ·) := by
        simp [netSteps, ht, Body.netSteps]
      have hends : answers cfg c (some i) env = (w.answers cfg env).map (i, ·) := by
        simp [answers, ht, Body.answers]
      simp only [netLog_append, answersFor_append, hsteps, hends, hnet.entered_own, hnetOf,
        List.length_append]
      have hcount : ∀ id, ((w.answers cfg env).map (i, ·)).count (i, id)
          = (w.answers cfg env).count id := fun id =>
        List.count_map_of_injective _ _ (Prod.mk_right_injective i) id
      simp only [hcount]
      exact hstep
  · rw [Conf.step_local_ne (Ne.symm hj)]
    refine ⟨w, hw, ?_⟩
    simp only [netLog_append, answersFor_append, (observed_other hj c env _ _).1,
      (observed_other hj c env _ (netLog notices)).2, Nat.add_zero]
    exact hone

/-- **One request at a time.** With http, in a run in which no wake-up fails: `send` takes from a
connection no more than one copy of the request beyond those whose response the parser has finished
or rejected. -/
theorem one_request_at_a_time (hp : cfg.protocol = .http) (h : WireRun cfg beginNs c notices)
    (i : Fin cfg.threadCount) (id : ℕ) :
    Polling.accepted id (visitsOf i (netLog notices))
      <+: (List.replicate (answersFor i id notices + 1) (buildPayload cfg)).flatten := by
  obtain ⟨w, -, hone⟩ := h.oneAtATime hp i
  obtain ⟨k, hk, hfront, -⟩ := requests_on_wire h.net i id
  have hle : k ≤ answersFor i id notices + 1 := hk.trans (hone.most id)
  obtain ⟨rest, hrest⟩ := Nat.exists_eq_add_of_le hle
  rw [hrest, List.replicate_add, List.flatten_append]
  exact hfront.trans (List.prefix_append _ _)

/-- What is observed while the request waits for its response. -/
def awaitedWire : List ((Fin oneHttpRequest.threadCount × NetWorker.Step) ⊕
    (Fin oneHttpRequest.threadCount × ℕ)) :=
  (init oneHttpRequest 0).log (step oneHttpRequest) (fun c i env =>
    (netSteps oneHttpRequest c i env).map .inl ++ (answers oneHttpRequest c i env).map .inr)
    (answeredBy [])

/-- The request has left once, and no more of it before its response. -/
theorem one_request_at_a_time_unanswered :
    answersFor ⟨0, by decide⟩ 1 awaitedWire = 0 ∧
      Polling.accepted 1 (visitsOf ⟨0, by decide⟩ (netLog awaitedWire))
        = buildPayload oneHttpRequest ∧
      Polling.accepted 1 (visitsOf ⟨0, by decide⟩ (netLog awaitedWire))
        <+: (List.replicate 1 (buildPayload oneHttpRequest)).flatten := by
  have hrun : WireRun oneHttpRequest 0 (reported []) awaitedWire := by
    refine logged_run _ ?_
    decide
  have hnone : answersFor ⟨0, by decide⟩ 1 awaitedWire = 0 := by decide +kernel
  have hall := one_request_at_a_time (by decide) hrun ⟨0, by decide⟩ 1
  rw [hnone] at hall
  exact ⟨hnone, by decide +kernel, hall⟩

end Engine

end TitanBench
