import TitanBench.EngineBytes
import TitanBench.EngineConnections
import TitanBench.EngineDelivery
import TitanBench.NetworkProtocol

/-!
# From the sockets to the report

The bytes that `recv` returned go through three hands: the `NetWorker` puts them in a data event,
the worker adds the size of the event to the shared counter, and the main thread reads the counter
for the report. A data event of an unknown connection would be passed over.

* `Orderly` — each data event belongs to a connection that has a session, and comes before the
  error event of the connection.
* `delivers_pollOnce` — a poll keeps that, and its data events hold all bytes it received.
* `received_conserved` — the main result: what the sockets gave is what the report counts, but for
  the events a worker drops when it cannot reconnect.
-/

namespace TitanBench

open Threads

variable {n : ℕ}

namespace NetWorker

/-! ## The events of a poll -/

/-- The data events are of connections of `mine`, and no data comes after the error event of its
connection. -/
structure Orderly (mine : ℕ → Prop) (events : List RecvEvent) : Prop where
  known : ∀ ev ∈ events, ev.isError = false → mine ev.connId
  before : events.Pairwise fun e e' => e.isError = true → e'.isError = false → e.connId ≠ e'.connId

/-- The events of a poll are orderly, and hold the bytes received since there were `k`. -/
structure Delivers (mine : ℕ → Prop) (k : ℕ) (w : NetWorker) : Prop where
  orderly : Orderly mine w.recvEvents
  bytes : w.bytesReceived = k + dataBytes w.recvEvents

section Poll

variable {mine : ℕ → Prop} {events : List RecvEvent} {k : ℕ} {queue : List Command}
  {w w' : NetWorker} {S : Set ℕ} {fds : List ℕ}

theorem orderly_nil (mine : ℕ → Prop) : Orderly mine [] where
  known _ h := nomatch h
  before := .nil

theorem Orderly.failure (h : Orderly mine events) (id : ℕ) (err : NetErrc) :
    Orderly mine (events ++ [failure id err]) := by
  refine ⟨fun ev hev herr => ?_, List.pairwise_append.mpr
    ⟨h.before, List.pairwise_singleton _ _, fun e _ e' he' _ hdata => ?_⟩⟩
  · rcases List.mem_append.mp hev with hev | hev
    · exact h.known ev hev herr
    · rw [List.mem_singleton.mp hev] at herr
      cases herr
  · rw [List.mem_singleton.mp he'] at hdata
    cases hdata

theorem Orderly.data (h : Orderly mine events) {id : ℕ} (hid : mine id) (hno : ¬ Fails events id)
    (bytes : Bytes) : Orderly mine (events ++ [{ connId := id, data := bytes }]) := by
  refine ⟨fun ev hev herr => ?_, List.pairwise_append.mpr
    ⟨h.before, List.pairwise_singleton _ _, fun e he e' he' herr _ heq => ?_⟩⟩
  · rcases List.mem_append.mp hev with hev | hev
    · exact h.known ev hev herr
    · rw [List.mem_singleton.mp hev]
      exact hid
  · rw [List.mem_singleton.mp he'] at heq
    exact hno ⟨e, he, herr, heq⟩

/-- The connections in the table are of `mine` and have not failed. -/
structure Feeds (mine : ℕ → Prop) (w : NetWorker) : Prop where
  wellKeyed : w.WellKeyed
  live : ∀ id ∈ w.connections, mine id ∧ ¬ Fails w.recvEvents id
  orderly : Orderly mine w.recvEvents

/-- Connections that are replaced under their own id. -/
theorem Feeds.set (h : Feeds mine w) {id : ℕ} {conn conn' : Connection}
    (hl : w.connections.lookup id = some conn) (hid : conn'.id = conn.id) :
    Feeds mine (w.setConnection id conn') where
  wellKeyed := Table.All.insert h.wellKeyed (hid.trans (h.wellKeyed id conn hl))
  live k hk := h.live k ((mem_setConnection hl conn' k).mp hk)
  orderly := h.orderly

theorem Feeds.remove (h : Feeds mine w) {id : ℕ} {conn : Connection} {err : NetErrc}
    (hl : w.connections.lookup id = some conn) (herr : err ≠ .ok) :
    Feeds mine (w.removeConnection id err) := by
  have hevents := removeConnection_failure hl (h.wellKeyed id conn hl) herr
  have hconn := removeConnection_connections w id err
  refine ⟨(moves_removeConnection w id err).wellKeyed h.wellKeyed, fun k hk => ?_, ?_⟩
  · rw [hconn, AList.mem_erase] at hk
    obtain ⟨hmine, hno⟩ := h.live k hk.2
    refine ⟨hmine, ?_⟩
    rw [hevents, fails_failure]
    exact fun hfails => hfails.elim hno fun heq => hk.1 heq.symm
  · rw [hevents]
    exact h.orderly.failure id err

theorem Deeds.feeds (hd : Deeds S fds w w') (h : Feeds mine w) : Feeds mine w' := by
  induction hd with
  | quiet hq =>
    refine ⟨wellKeyed_congr h.wellKeyed hq.connections, fun k hk => ?_, ?_⟩
    · rw [hq.connections] at hk
      rw [hq.recvEvents]
      exact h.live k hk
    · rw [hq.recvEvents]
      exact h.orderly
  | alter _ hl hid _ => exact h.set hl hid
  | store _ _ hl hid _ _ => exact h.set hl hid
  | close _ => exact ⟨h.wellKeyed, h.live, h.orderly⟩
  | @data w id bytes _ hmem _ =>
    obtain ⟨hmine, hno⟩ := h.live id hmem
    refine ⟨h.wellKeyed, fun k hk => ⟨(h.live k hk).1, ?_⟩, h.orderly.data hmine hno bytes⟩
    show ¬ Fails (w.recvEvents ++ [{ connId := id, data := bytes }]) k
    rw [fails_concat]
    exact fun hfails => hfails.elim (h.live k hk).2 fun herr => nomatch herr.1
  | remove _ hl herr _ => exact h.remove hl herr
  | trans _ _ ih ih' => exact ih' (ih h)

/-- A worker in step feeds its own connections. -/
theorem InStep.feeds (h : InStep mine w.recvEvents queue w) (ho : Orderly mine w.recvEvents) :
    Feeds mine w :=
  ⟨h.wellKeyed, fun id hid => ⟨h.live id (.inl hid), fun hf => (h.gone id hf).1 hid⟩, ho⟩

theorem Deeds.delivers (hd : Deeds S fds w w') (hf : Feeds mine w) (h : Delivers mine k w) :
    Delivers mine k w' := by
  obtain ⟨events, hlog, hbytes⟩ := hd.log hf.wellKeyed
  refine ⟨(hd.feeds hf).orderly, ?_⟩
  rw [hbytes, h.bytes, hlog, dataBytes_append, Nat.add_assoc]

/-- A command is executed by a worker in step. -/
theorem Carries.delivers {create : ℕ → CreateSys} {cmd : Command} (hc : Carries create w cmd w')
    (hin : InStep mine w.recvEvents (cmd :: queue) w) (h : Delivers mine k w) :
    Delivers mine k w' := by
  have hfeeds := hin.feeds h.orderly
  cases hc with
  | @entered _ id conn _ hopens hnew hid hnone hdeeds =>
    have hasked : Asked (cmd :: queue) id := asked_cons.mpr (.inl hopens)
    refine hdeeds.delivers ⟨Table.All.insert hin.wellKeyed hid, fun j hj => ?_, h.orderly⟩
      ⟨h.orderly, h.bytes⟩
    rcases (AList.mem_insert _).mp hj with rfl | hj
    · exact ⟨hin.live _ (.inr hasked), fun hf => (hin.gone _ hf).2 hasked⟩
    · exact hfeeds.live j hj
  | @collided _ id hopens hmem hnone =>
    exact (deeds_ioFailed w (Set.mem_univ id)).delivers hfeeds h
  | sent hmem hdeeds => exact hdeeds.delivers hfeeds h
  | @missed id payload _ hout hq =>
    refine ⟨?_, ?_⟩
    · rw [hq.recvEvents]
      exact h.orderly.failure id .connectionNotFound
    · rw [hq.recvEvents, hq.bytesReceived]
      show w.bytesReceived = k + dataBytes (w.recvEvents ++ [failure id .connectionNotFound])
      rw [dataBytes_append, h.bytes]
      rfl
  | closed id => exact absurd rfl (hin.noClose _ List.mem_cons_self id)

theorem delivers_processCommands (create : ℕ → CreateSys)
    (hin : InStep mine w.recvEvents w.commands w) (h : Delivers mine k w) :
    Delivers mine k (w.processCommands create) := by
  have hfold : ∀ (cmds : List Command) (v : NetWorker), InStep mine v.recvEvents cmds v →
      Delivers mine k v → Delivers mine k (cmds.foldl (handleCommand create) v) := by
    intro cmds
    induction cmds with
    | nil => exact fun _ _ hv => hv
    | cons cmd cmds ih =>
      intro v hs hv
      exact ih _ ((handleCommand_executes create v cmd).inStep hs)
        ((handleCommand_carries create v cmd).delivers hs hv)
  have hstart : InStep mine w.recvEvents w.commands { w with commands := [] } :=
    hin.congr hin.wellKeyed (fun _ => Iff.rfl) rfl (fun _ => Iff.rfl)
  exact hfold w.commands { w with commands := [] } hstart ⟨h.orderly, h.bytes⟩

theorem delivers_checkConnectTimeouts (hin : InStep mine w.recvEvents w.commands w)
    (h : Delivers mine k w) (nowNs : ℤ) (order : List ℕ) :
    Delivers mine k (w.checkConnectTimeouts nowNs order) :=
  (deeds_checkConnectTimeouts w nowNs order).delivers (hin.feeds h.orderly) h

theorem delivers_handleReady (hin : InStep mine w.recvEvents w.commands w)
    (h : Delivers mine k w) (ev : ReadyEvent) : Delivers mine k (w.handleReady ev) := by
  unfold handleReady
  split
  · exact delivers_processCommands _ hin h
  · exact (deeds_dispatch w ev hin.wellKeyed).delivers (hin.feeds h.orderly) h

/-- **A poll.** The events it leaves are orderly, and hold all bytes it received. -/
theorem delivers_pollOnce (sys : PollSys) (hin : InStep mine w.recvEvents w.commands w)
    (h : Delivers mine k w) : Delivers mine k (w.pollOnce sys).1 := by
  have hevents : ∀ (events : List ReadyEvent) (v : NetWorker),
      InStep mine v.recvEvents v.commands v → Delivers mine k v →
      InStep mine (events.foldl handleReady v).recvEvents (events.foldl handleReady v).commands
          (events.foldl handleReady v) ∧
        Delivers mine k (events.foldl handleReady v) := by
    intro events
    induction events with
    | nil => exact fun _ hs hv => ⟨hs, hv⟩
    | cons ev events ih =>
      exact fun v hs hv => ih _ (inStep_handleReady hs ev) (delivers_handleReady hs hv ev)
  unfold pollOnce
  split
  · exact h
  · have hprocessed := inStep_processCommands sys.create hin
    have hdone := delivers_processCommands sys.create hin h
    have hfirst := (churn_checkConnectTimeouts _ sys.beforeNs sys.beforeOrder).inStep_commands
      hprocessed
    have hpaid := delivers_checkConnectTimeouts hprocessed hdone sys.beforeNs sys.beforeOrder
    cases sys.wait with
    | interrupted => exact hpaid
    | failed => exact hpaid
    | ready events =>
      obtain ⟨hlast, hall⟩ := hevents events _ hfirst hpaid
      exact delivers_checkConnectTimeouts hlast hall _ _

end Poll

/-! ## What receives nothing -/

theorem modFd_bytesReceived (w : NetWorker) (fd : Option ℕ) (mask : EpollMask) :
    (w.modFd fd mask).bytesReceived = w.bytesReceived := by
  cases fd <;> rfl

theorem connectTcp_bytesReceived (w : NetWorker) (id fd : ℕ) (conn : Connection)
    (sys : CreateSys) : (w.connectTcp id fd conn sys).bytesReceived = w.bytesReceived := by
  unfold connectTcp
  dsimp only
  split_ifs
  · exact removeConnection_bytesReceived _ id _
  · cases sys.connect with
    | connected => exact modFd_bytesReceived _ _ _
    | inProgress => rfl
    | failed => exact removeConnection_bytesReceived _ id _

theorem connectUdp_bytesReceived (w : NetWorker) (id fd : ℕ) (conn : Connection)
    (sys : CreateSys) : (w.connectUdp id fd conn sys).bytesReceived = w.bytesReceived := by
  unfold connectUdp
  dsimp only
  split_ifs
  · exact removeConnection_bytesReceived _ id _
  · exact removeConnection_bytesReceived _ id _
  · rfl

theorem Creates.bytesReceived {w w' : NetWorker} {id : ℕ} {endpoint : Endpoint} {sys : CreateSys}
    {conn : Connection} {connect : ℕ → NetWorker → NetWorker}
    (h : Creates w id endpoint sys conn connect w')
    (hconnect : ∀ fd v, (connect fd v).bytesReceived = v.bytesReceived) :
    w'.bytesReceived = w.bytesReceived := by
  cases h with
  | connects => exact hconnect _ _
  | collided | noSocket | blocks => exact removeConnection_bytesReceived _ id _

theorem handleCommand_bytesReceived (create : ℕ → CreateSys) (w : NetWorker) (cmd : Command) :
    (w.handleCommand create cmd).bytesReceived = w.bytesReceived := by
  cases cmd with
  | createTcp id endpoint timeoutMs =>
    exact (handleCreateTcp_creates w id endpoint timeoutMs (create id)).bytesReceived
      fun fd v => connectTcp_bytesReceived v id fd _ _
  | createUdp id endpoint =>
    exact (handleCreateUdp_creates w id endpoint (create id)).bytesReceived
      fun fd v => connectUdp_bytesReceived v id fd _ _
  | send id payload =>
    show (w.handleSend id payload).bytesReceived = _
    unfold handleSend
    cases w.connections.lookup id with
    | none => rfl
    | some conn =>
      dsimp only
      split_ifs
      · rfl
      · exact modFd_bytesReceived _ _ _
  | close id => exact removeConnection_bytesReceived w id .ok

theorem checkConnectTimeouts_bytesReceived (w : NetWorker) (nowNs : ℤ) (order : List ℕ) :
    (w.checkConnectTimeouts nowNs order).bytesReceived = w.bytesReceived := by
  unfold checkConnectTimeouts
  generalize List.filterMap _ _ = ids
  induction ids generalizing w with
  | nil => rfl
  | cons id ids ih => exact (ih _).trans (removeConnection_bytesReceived w id .timeout)

/-- A poll that fails has received nothing. -/
theorem pollOnce_failed {sys : PollSys} {w : NetWorker} (h : (w.pollOnce sys).2 ≠ .ok) :
    (w.pollOnce sys).1.bytesReceived = w.bytesReceived := by
  have hprocess : (w.processCommands sys.create).bytesReceived = w.bytesReceived := by
    have hfold : ∀ (cmds : List Command) (v : NetWorker),
        (cmds.foldl (handleCommand sys.create) v).bytesReceived = v.bytesReceived := by
      intro cmds
      induction cmds with
      | nil => exact fun _ => rfl
      | cons cmd cmds ih => exact fun v => (ih _).trans (handleCommand_bytesReceived _ v cmd)
    exact hfold w.commands { w with commands := [] }
  by_cases hs : w.started = false
  · rw [pollOnce, if_pos hs]
  · rw [pollOnce, if_neg hs] at h ⊢
    dsimp only at h ⊢
    cases hwait : sys.wait with
    | failed => exact (checkConnectTimeouts_bytesReceived _ _ _).trans hprocess
    | interrupted | ready events => exact absurd (by rw [hwait]) h

theorem start_bytesReceived (w : NetWorker) (sys : StartSys) :
    (w.start sys).1.bytesReceived = w.bytesReceived := by
  unfold start
  split
  · rfl
  · cases sys.epollFd with
    | none => rfl
    | some epollFd =>
      cases sys.wakeFd with
      | none => rfl
      | some wakeFd =>
        dsimp only
        split <;> rfl

theorem Opening.bytesReceived {w : NetWorker} {r : NetWorker × NetErrc × ℕ} (h : Opening w r) :
    r.1.bytesReceived = w.bytesReceived := by
  cases h <;> rfl

theorem Sending.bytesReceived {w w' : NetWorker} {id : ℕ} {payload : Bytes}
    (h : Sending w id payload w') : w'.bytesReceived = w.bytesReceived := by
  cases h <;> rfl

end NetWorker

namespace EventWorker

theorem closeAll_bytesReceived (env : Env) (w : EventWorker) :
    (w.closeAll env).net.bytesReceived = w.net.bytesReceived := by
  have hfold : ∀ (ids : List ℕ) (net : NetWorker),
      (ids.foldl (fun net id => (net.closeConnection id (env.close id)).1) net).bytesReceived
        = net.bytesReceived := by
    intro ids
    induction ids with
    | nil => exact fun _ => rfl
    | cons id ids ih =>
      exact fun net => (ih _).trans
        (NetWorker.submit_sameNet (.close id) (env.close id) net).bytesReceived
  rw [← hfold (w.sessions.visit env.order) w.net]
  exact (NetWorker.Polling.stop_silent _).2.1

/-! ## The worker -/

/-- The events the worker has still to handle are orderly. -/
def Fed (w : EventWorker) : Prop := NetWorker.Orderly (· ∈ w.sessions) w.ctl.events

/-- The events the worker drops in its next step: it cannot reconnect. -/
def dropped (cfg : Config) (env : Env) (w : EventWorker) : List RecvEvent :=
  match w.ctl with
  | .reconnecting _ events =>
    if (submitConnection cfg env.submit w.net).2.1 = .ok then [] else events
  | _ => []

/-- Where the bytes are that a step finds and leaves: in the `NetWorker`, in events that are still
to be handled, in operations, or in events that are dropped. -/
structure Passes (cfg : Config) (env : Env) (w : EventWorker) (ops : List Op) (w' : EventWorker) :
    Prop where
  fed : w'.Fed
  account : w'.net.bytesReceived + NetWorker.dataBytes w.ctl.events
    = w.net.bytesReceived + (owed .bytesReceived ops + NetWorker.dataBytes w'.ctl.events)
      + NetWorker.dataBytes (w.dropped cfg env)

section Step

variable {cfg : Config} {i : Fin n} {env : Env} {sh : Shared n} {w w' : EventWorker}
  {ops : List Op}

/-- Nothing is received, handled or dropped. -/
theorem passes_quiet (hw : w.ctl.events = []) (hw' : w'.ctl.events = [])
    (hbytes : w'.net.bytesReceived = w.net.bytesReceived) (hops : owed .bytesReceived ops = 0) :
    Passes cfg env w ops w' := by
  have hdropped : w.dropped cfg env = [] := by
    unfold dropped
    cases hc : w.ctl with
    | reconnecting old events =>
      rw [hc] at hw
      obtain rfl : events = [] := hw
      exact ite_self _
    | _ => rfl
  refine ⟨?_, ?_⟩
  · unfold Fed
    rw [hw']
    exact NetWorker.orderly_nil _
  · rw [hdropped, hw, hw', hbytes, hops]
    rfl

theorem dropped_eq_nil (hc : ∀ old events, w.ctl ≠ .reconnecting old events) :
    w.dropped cfg env = [] := by
  unfold dropped
  cases hctl : w.ctl with
  | reconnecting old events => exact absurd hctl (hc old events)
  | _ => rfl

/-- The worker goes on with the events it has. -/
theorem passes_same (hfed : w'.Fed) (hevents : w'.ctl.events = w.ctl.events)
    (hbytes : w'.net.bytesReceived = w.net.bytesReceived) (hops : owed .bytesReceived ops = 0)
    (hdropped : w.dropped cfg env = []) : Passes cfg env w ops w' := by
  refine ⟨hfed, ?_⟩
  rw [hevents, hbytes, hops, hdropped]
  show _ = _ + 0
  omega

/-- The worker has handled the front event. -/
theorem passes_handled {ev : RecvEvent} {events : List RecvEvent} (hw : w.ctl.events = ev :: events)
    (hw' : w'.ctl.events = events) (hbytes : w'.net.bytesReceived = w.net.bytesReceived)
    (hops : owed .bytesReceived ops = if ev.isError then 0 else ev.data.length)
    (hdropped : w.dropped cfg env = []) (hfed : w'.Fed) : Passes cfg env w ops w' := by
  have hfront : NetWorker.dataBytes (ev :: events)
      = (if ev.isError then 0 else ev.data.length) + NetWorker.dataBytes events := by
    cases herr : ev.isError <;> simp [NetWorker.dataBytes, herr]
  refine ⟨hfed, ?_⟩
  rw [hw, hw', hbytes, hops, hdropped, hfront]
  show _ = _ + 0
  omega

theorem owed_bytesReceived_errorOps (cfg : Config) (env : Env) (ec : NetErrc) (old : Session) :
    owed .bytesReceived (errorOps cfg env ec old) = 0 := by
  unfold errorOps
  split_ifs <;> rfl

theorem owed_bytesReceived_dataEvent (cfg : Config) (env : Env) (data : Bytes) (old : Session) :
    owed .bytesReceived (dataEvent cfg env data old).1 = 0 := by
  have hd := dataEvent_digested cfg env data old
  generalize dataEvent cfg env data old = r at hd
  cases hd with
  | rejected => simp [parseErrorOps]
  | finished => simp [owed_response]
  | _ => rfl

/-- The worker goes on with the events it has, and with at least its sessions. -/
theorem Fed.keep (h : w.Fed) (hevents : w'.ctl.events = w.ctl.events)
    (hsessions : ∀ id ∈ w.sessions, id ∈ w'.sessions) : w'.Fed := by
  unfold Fed
  rw [hevents]
  exact ⟨fun ev hev herr => hsessions _ (h.known ev hev herr), h.before⟩

/-- The worker has handled the front event. A session is gone after an error event only. -/
theorem Fed.handled {ev : RecvEvent} {events : List RecvEvent} (h : w.Fed)
    (hw : w.ctl.events = ev :: events) (hw' : w'.ctl.events = events)
    (hsessions : ∀ id ∈ w.sessions, ¬ (ev.isError = true ∧ ev.connId = id) → id ∈ w'.sessions) :
    w'.Fed := by
  have hfed : NetWorker.Orderly (· ∈ w.sessions) (ev :: events) := hw ▸ h
  obtain ⟨hfirst, hrest⟩ := List.pairwise_cons.mp hfed.before
  unfold Fed
  rw [hw']
  refine ⟨fun e he herr => ?_, hrest⟩
  refine hsessions _ (hfed.known e (List.mem_cons_of_mem _ he) herr) ?_
  rintro ⟨hfails, heq⟩
  exact hfirst e he hfails herr heq

theorem eventStep_polls (hc : w.ctl = .polling) (hin : w.InStep) :
    Passes cfg env w (eventStep cfg i env sh w).2.1 (eventStep cfg i env sh w).2.2 := by
  have hdropped : w.dropped cfg env = [] := dropped_eq_nil fun _ _ heq => by simp [hc] at heq
  have hnone : w.ctl.events = [] := by rw [hc]; rfl
  have hstart : w.net.InStep (· ∈ w.sessions) [] w.net.commands := hnone ▸ hin
  have hcleared : NetWorker.InStep (· ∈ w.sessions) [] w.net.commands
      { w.net with recvEvents := [] } :=
    hstart.congr hstart.wellKeyed (fun _ => Iff.rfl) rfl (fun _ => Iff.rfl)
  have hempty : NetWorker.Delivers (· ∈ w.sessions) w.net.bytesReceived
      { w.net with recvEvents := [] } := ⟨NetWorker.orderly_nil _, rfl⟩
  have hpoll := NetWorker.delivers_pollOnce env.poll hcleared hempty
  have hfailed := @NetWorker.pollOnce_failed env.poll { w.net with recvEvents := [] }
  unfold eventStep
  rw [hc]
  dsimp only
  generalize NetWorker.pollOnce env.poll { w.net with recvEvents := [] } = r at hpoll hfailed
  obtain ⟨net, ec⟩ := r
  cases ec with
  | ok =>
    refine ⟨hpoll.orderly, ?_⟩
    rw [hnone, hdropped, hpoll.bytes]
    show _ = _ + (0 + _) + 0
    simp [NetWorker.dataBytes, EventCtl.events]
  | _ => exact passes_quiet hnone rfl (hfailed (by simp)) rfl

theorem eventStep_reconnects {old : Session} {events : List RecvEvent}
    (hc : w.ctl = .reconnecting old events) (hfed : w.Fed) :
    Passes cfg env w (eventStep cfg i env sh w).2.1 (eventStep cfg i env sh w).2.2 := by
  have hbytes := (submitConnection_opening cfg env.submit w.net).bytesReceived
  have hevents : w.ctl.events = events := by rw [hc]; rfl
  unfold eventStep
  rw [hc]
  dsimp only
  rw [createConnection_eq]
  split_ifs with hok
  · refine passes_same (hfed.keep hevents.symm fun id hid => ?_) hevents.symm hbytes rfl ?_
    · exact (AList.mem_insert _).mpr (.inr hid)
    · simp [dropped, hc, hok]
  · refine ⟨NetWorker.orderly_nil _, ?_⟩
    have hdropped : w.dropped cfg env = events := by simp [dropped, hc, hok]
    rw [hdropped, hevents]
    show (submitConnection cfg env.submit w.net).1.bytesReceived + _ = _ + (0 + 0) + _
    rw [hbytes, Nat.add_zero]

/-- **A step of a worker** hands the bytes on. -/
theorem eventStep_passes {share : ℕ} (hseated : w.Seated share)
    (hin : w.ctl = .polling → w.InStep) (hfed : w.Fed) :
    Passes cfg env w (eventStep cfg i env sh w).2.1 (eventStep cfg i env sh w).2.2 := by
  by_cases hpoll : w.ctl = .polling
  · exact eventStep_polls hpoll (hin hpoll)
  by_cases hagain : ∃ old events, w.ctl = .reconnecting old events
  · obtain ⟨old, events, hc⟩ := hagain
    exact eventStep_reconnects hc hfed
  have hdropped : w.dropped cfg env = [] :=
    dropped_eq_nil fun old events hc => hagain ⟨old, events, hc⟩
  have hm := eventStep_move cfg i env sh w
  generalize eventStep cfg i env sh w = r at hm
  cases hm with
  | goes hg =>
    cases hg with
    | enter hc | sweep _ _ hc | swept hc | skip hc | pick hc | gone hc | handled hc | stay hc =>
      exact passes_quiet (by rw [hc]; rfl) rfl rfl rfl
    | @unknown ev events hc hl =>
      have hw : w.ctl.events = ev :: events := by rw [hc]; rfl
      have herr : ev.isError = true := by
        by_contra hdata
        have hmem := hfed.known ev (hw ▸ List.mem_cons_self) (by simpa using hdata)
        exact AList.lookup_eq_none.mp hl hmem
      exact passes_handled hw rfl rfl (by rw [herr]; rfl) hdropped
        (hfed.handled hw rfl fun id hid _ => hid)
  | opened session hopens =>
    have hbytes := (submitConnection_opening cfg env.submit w.net).bytesReceived
    refine passes_same (hfed.keep hopens.events fun id hid => ?_) hopens.events hbytes rfl hdropped
    exact (AList.mem_insert _).mpr (.inr hid)
  | @notOpened next hopens =>
    have hbytes := (submitConnection_opening cfg env.submit w.net).bytesReceived
    have hnone : w.ctl.events = [] := by
      generalize hctl : w.ctl = ctl at hopens
      cases hopens with
      | first left => rfl
      | again old events => exact absurd ⟨old, events, hctl⟩ hagain
    exact passes_quiet hnone rfl hbytes rfl
  | polled hc | pollFailed hc => exact absurd hc hpoll
  | started hc | notStarted hc =>
    exact passes_quiet (by rw [hc]; rfl) rfl (w.net.start_bytesReceived env.start) rfl
  | sent hc | requested hc | sendFailed hc =>
    exact passes_quiet (by rw [hc]; rfl) rfl (w.net.send_sending _ _ _).bytesReceived rfl
  | @errored ev events old hc hl herr =>
    have hw : w.ctl.events = ev :: events := by rw [hc]; rfl
    refine passes_handled hw rfl rfl ?_ hdropped (hfed.handled hw rfl fun id hid hne => ?_)
    · rw [owed_bytesReceived_errorOps, herr]
      rfl
    · exact AList.mem_erase.mpr ⟨fun heq => hne ⟨herr, heq.symm⟩, hid⟩
  | @received ev events old hc hl herr =>
    have hw : w.ctl.events = ev :: events := by rw [hc]; rfl
    have hkey : (dataEvent cfg env ev.data old).2.connId = ev.connId :=
      (dataEvent_connId cfg env ev.data old).trans (hseated.keyed _ _ hl)
    refine passes_handled hw rfl rfl ?_ hdropped (hfed.handled hw rfl fun id hid _ => ?_)
    · simp [owed_bytesReceived_dataEvent, herr]
    · show id ∈ AList.insert (dataEvent cfg env ev.data old).2.connId _ (w.sessions.erase ev.connId)
      rw [AList.mem_insert, AList.mem_erase, hkey]
      by_cases heq : id = ev.connId
      · exact .inl heq
      · exact .inr ⟨heq, hid⟩
  | retried hc | givenUp hc =>
    have hevents := congrArg EventCtl.events hc
    exact passes_same (hfed.keep hevents.symm fun id hid => hid) hevents.symm rfl rfl hdropped
  | closed hc =>
    exact passes_quiet (by rw [hc]; rfl) rfl (w.closeAll_bytesReceived env) rfl
  | stopped hc | acquires hc | refused hc | granted hc | waits _ hc | waited _ hc | returned hc =>
    exact passes_quiet (by rw [hc]; rfl) rfl rfl rfl

end Step

end EventWorker

/-! ## Runs -/

namespace Body

/-- The events the thread has still to handle. -/
def events : Body → List RecvEvent
  | .event w => w.ctl.events
  | _ => []

def dropped (cfg : Config) (env : Env) : Body → List RecvEvent
  | .event w => w.dropped cfg env
  | _ => []

def Fed : Body → Prop
  | .event w => w.Fed
  | _ => True

end Body

namespace Engine

variable {cfg : Config} {beginNs : ℕ} {c : Conf cfg.threadCount} {log : List RecvEvent}

/-- The events a step of a thread drops. -/
def drops (cfg : Config) (c : Conf n) (i : Option (Fin n)) (env : Env) : List RecvEvent :=
  if i ≠ none ∧ (c.locals i).ops = [] then (c.locals i).body.dropped cfg env else []

/-- The runs of `cfg` with the events the workers drop. -/
abbrev DroppingRun (cfg : Config) (beginNs : ℕ) (c : Conf cfg.threadCount)
    (log : List RecvEvent) : Prop :=
  Logged (step cfg) (drops cfg) (fun _ _ _ => True) (init cfg beginNs) c log

/-- A worker that polls is in step. -/
theorem Runs.polling (h : Runs cfg beginNs c) {i : Fin cfg.threadCount} {ops : List Op}
    {w : EventWorker} (hw : c.locals (some i) = ⟨ops, .event w⟩) (hc : w.ctl = .polling) :
    w.InStep :=
  (h.within i w (by rw [hw])).polling hc

theorem Runs.fed (h : Runs cfg beginNs c) (i : Fin cfg.threadCount) :
    (c.locals (some i)).body.Fed := by
  refine h.local_invariant (J := fun t => t.body.Fed) (some i) ?_ ?_
  · show (initialBody cfg i).Fed
    unfold initialBody
    split_ifs
    · trivial
    · exact NetWorker.orderly_nil _
    · exact NetWorker.orderly_nil _
  · intro c e hc _ hfed
    have hruns : Runs cfg beginNs c := hc
    have hpolling : ∀ {ops w}, c.locals (some i) = ⟨ops, .event w⟩ → w.ctl = .polling →
        w.InStep := hruns.polling
    have hseated : ∀ {ops w}, c.locals (some i) = ⟨ops, .event w⟩ →
        w.Seated (cfg.perWorker i) := hruns.seated_event
    generalize c.locals (some i) = t at hfed hpolling hseated
    obtain ⟨ops, body⟩ := t
    cases ops with
    | cons op rest => exact hfed
    | nil =>
      cases body with
      | main m => trivial
      | event w =>
        exact (EventWorker.eventStep_passes (hseated rfl) (hpolling rfl) hfed).fed
      | slot s => trivial

/-- What one step does to the two accounts of the received bytes. -/
theorem Runs.passes (hp : cfg.protocol ≠ .https) (h : Runs cfg beginNs c)
    (i : Option (Fin cfg.threadCount)) (env : Env) :
    (step cfg i env c.shared (c.locals i)).2.body.net.bytesReceived
        + (c.shared.counters .bytesReceived
          + (owed .bytesReceived (c.locals i).ops + NetWorker.dataBytes (c.locals i).body.events))
      = (c.locals i).body.net.bytesReceived
        + ((step cfg i env c.shared (c.locals i)).1.counters .bytesReceived
          + (owed .bytesReceived (step cfg i env c.shared (c.locals i)).2.ops
            + NetWorker.dataBytes (step cfg i env c.shared (c.locals i)).2.body.events))
        + NetWorker.dataBytes (drops cfg c i env) := by
  have hm := step_move cfg i env c.shared (c.locals i)
  have hslot := h.not_slot hp i
  unfold drops
  by_cases hops : (c.locals i).ops = []
  · have hcounter : (step cfg i env c.shared (c.locals i)).1.counters .bytesReceived
        = c.shared.counters .bytesReceived := hm.counter_eq hops (by decide)
    rw [hcounter]
    cases i with
    | none =>
      obtain ⟨m, hm⟩ := h.main_body
      have ht : c.locals none = ⟨[], .main m⟩ := by rw [← hops, ← hm]
      rw [ht]
      have hf := mainStep_frame cfg env c.shared m
      have howed : owed .bytesReceived (mainStep cfg env c.shared m).2.1 = 0 := by
        rcases hf.ops with hnone | hstop
        · rw [hnone]
          rfl
        · rw [hstop]
          rfl
      show _ = _ + (_ + (owed .bytesReceived (mainStep cfg env c.shared m).2.1 + _)) + _
      rw [howed]
      rfl
    | some i =>
      have hfed := h.fed i
      rcases ht : c.locals (some i) with ⟨ops, body⟩
      rw [ht] at hops hfed hslot
      obtain rfl : ops = [] := hops
      cases body with
      | main m => rfl
      | slot s => exact absurd rfl (hslot s)
      | event w =>
        have hpasses : w.Passes cfg env (eventStep cfg i env c.shared w).2.1
            (eventStep cfg i env c.shared w).2.2 :=
          EventWorker.eventStep_passes (h.seated_event ht) (h.polling ht) hfed
        have haccount := hpasses.account
        simp only [ne_eq, reduceCtorEq, not_false_eq_true, and_self, if_true, weigh_nil]
        show (eventStep cfg i env c.shared w).2.2.net.bytesReceived
          + (_ + (0 + NetWorker.dataBytes w.ctl.events))
          = w.net.bytesReceived + (_ + (owed .bytesReceived (eventStep cfg i env c.shared w).2.1
            + NetWorker.dataBytes (eventStep cfg i env c.shared w).2.2.ctl.events))
            + NetWorker.dataBytes (w.dropped cfg env)
        omega
  · rw [if_neg fun hboth => hops hboth.2]
    generalize c.locals i = t at hm hops
    obtain ⟨ops, body⟩ := t
    cases ops with
    | nil => exact absurd rfl hops
    | cons op rest =>
      have hpays := (execOp_exec i op rest c.shared).pays .bytesReceived
      show body.net.bytesReceived
          + (_ + (owed .bytesReceived (op :: rest) + NetWorker.dataBytes body.events))
        = body.net.bytesReceived + ((execOp i op rest c.shared).1.counters .bytesReceived
          + (owed .bytesReceived (execOp i op rest c.shared).2
            + NetWorker.dataBytes body.events)) + 0
      omega

/-- The bytes of an event, if it is a data event. -/
def evBytes (ev : RecvEvent) : ℕ := if ev.isError then 0 else ev.data.length

theorem dataBytes_eq_sum (events : List RecvEvent) :
    NetWorker.dataBytes events = (events.map evBytes).sum := by
  induction events with
  | nil => rfl
  | cons ev events ih =>
    cases herr : ev.isError <;>
      simp_all [NetWorker.dataBytes, evBytes]

/-- A worker that drops events cannot go on. -/
theorem drops_notices {i : Option (Fin cfg.threadCount)} {env : Env}
    (hdrops : drops cfg c i env ≠ []) :
    ∃ x ∈ noticesOf cfg i env c.shared (c.locals i), x.ends = true := by
  unfold drops at hdrops
  split_ifs at hdrops with hown
  · obtain ⟨hi, hops⟩ := hown
    obtain ⟨i, rfl⟩ := Option.ne_none_iff_exists'.mp hi
    rcases ht : c.locals (some i) with ⟨ops, body⟩
    rw [ht] at hops hdrops
    obtain rfl : ops = [] := hops
    cases body with
    | main m => exact absurd rfl hdrops
    | slot s => exact absurd rfl hdrops
    | event w =>
      have hfails : w.fails cfg env = true := by
        simp only [Body.dropped, EventWorker.dropped] at hdrops
        unfold EventWorker.fails
        cases hc : w.ctl with
        | reconnecting old events =>
          rw [hc] at hdrops
          by_cases hok : (EventWorker.submitConnection cfg env.submit w.net).2.1 = .ok
          · simp [hok] at hdrops
          · simp [hok]
        | _ =>
          rw [hc] at hdrops
          exact absurd rfl hdrops
      exact ⟨.failed i, by simp [noticesOf, hfails], rfl⟩
  · exact absurd rfl hdrops

theorem Runs.stopping_step (h : Runs cfg beginNs c) (i : Option (Fin cfg.threadCount)) (env : Env)
    (hstop : Stopping c ∨ ∃ x ∈ noticesOf cfg i env c.shared (c.locals i), x.ends = true) :
    Stopping (c.step (step cfg) i env) := by
  have hown := step_stopping cfg i env c.shared (c.locals i) fun hi => hi ▸ h.main_body
  rw [stopping_split _ i, Conf.step_local_self, Conf.step_shared, hown]
  rcases hstop with hstop | hnotice
  · rcases (stopping_split c i).mp hstop with hmine | ⟨j, hj, hother⟩
    · exact .inl (.inl hmine)
    · exact .inr ⟨j, hj, by rwa [Conf.step_local_ne hj]⟩
  · exact .inl (.inr hnotice)

/-- Events are dropped by a worker that is about to stop the run. -/
theorem DroppingRun.stopping (h : DroppingRun cfg beginNs c log) (hlog : log ≠ []) :
    Stopping c := by
  refine h.invariant (I := fun c log => log ≠ [] → Stopping c) (fun hnil => absurd rfl hnil) ?_ hlog
  intro c log i env hc _ ih hlog
  refine Runs.stopping_step hc.reach i env ?_
  by_cases hnone : drops cfg c i env = []
  · rw [hnone, List.append_nil] at hlog
    exact .inl (ih hlog)
  · exact .inr (drops_notices hnone)

/-- **The received bytes of a run.** With http, tcp or udp: the bytes that `recv` returned to all
workers are in the shared counter, still to be added to it, in events still to be handled, or in
events that a worker dropped because it could not reconnect, which stops the run. So the final
report counts all bytes received, but for those. -/
theorem received_conserved (hp : cfg.protocol ≠ .https) (h : DroppingRun cfg beginNs c log) :
    (∑ i : Fin cfg.threadCount, (netOf c i).bytesReceived
      = c.shared.counters .bytesReceived
        + ∑ i, (owed .bytesReceived (c.locals i).ops
          + NetWorker.dataBytes (c.locals i).body.events)
        + NetWorker.dataBytes log) ∧
    (log ≠ [] → Stopping c) ∧
    ∀ m, (c.locals none).body = .main m → m.ctl = .done →
      ∑ i : Fin cfg.threadCount, (netOf c i).bytesReceived
        = m.report.counters .bytesReceived + NetWorker.dataBytes log := by
  have hruns : Runs cfg beginNs c := h.reach
  have hall : ∑ i, (c.locals i).body.net.bytesReceived
      = c.shared.counters .bytesReceived
        + ∑ i, (owed .bytesReceived (c.locals i).ops
          + NetWorker.dataBytes (c.locals i).body.events)
        + NetWorker.dataBytes log := by
    have haccount := h.account_eq (v := fun _ => 0) (u := fun sh => sh.counters .bytesReceived)
      (p := fun _ t => t.body.net.bytesReceived)
      (q := fun _ t => owed .bytesReceived t.ops + NetWorker.dataBytes t.body.events) evBytes ?_ ?_
    · rwa [Nat.zero_add, ← dataBytes_eq_sum] at haccount
    · have hinit : ∀ i, ((init cfg beginNs).locals i).body.net.bytesReceived = 0 ∧
          owed .bytesReceived ((init cfg beginNs).locals i).ops
            + NetWorker.dataBytes ((init cfg beginNs).locals i).body.events = 0 := by
        intro i
        cases i with
        | none => exact ⟨rfl, rfl⟩
        | some i =>
          show (initialBody cfg i).net.bytesReceived = 0 ∧
            0 + NetWorker.dataBytes (initialBody cfg i).events = 0
          unfold initialBody
          split_ifs <;> exact ⟨rfl, rfl⟩
      simp only [(hinit _).1, (hinit _).2]
      rfl
    · intro c i env hc _
      have hpasses := Runs.passes hp hc i env
      rw [dataBytes_eq_sum (drops cfg c i env)] at hpasses
      omega
  have hmain : (c.locals none).body.net.bytesReceived = 0 := by
    obtain ⟨m, hm⟩ := hruns.main_body
    rw [hm]
    rfl
  rw [Fintype.sum_option, hmain, Nat.zero_add] at hall
  refine ⟨hall, h.stopping, fun m hm hdone => ?_⟩
  have hclosed := hruns.closed hm hdone
  have hrest : ∑ i, (owed .bytesReceived (c.locals i).ops
      + NetWorker.dataBytes (c.locals i).body.events) = 0 := by
    rw [Finset.sum_add_distrib, hruns.sum_weigh_eq_zero hclosed.joined rfl, Nat.zero_add]
    refine Finset.sum_eq_zero fun i _ => ?_
    cases i with
    | none =>
      rw [hm]
      rfl
    | some i =>
      have hexited := (hruns.exited i (hclosed.joined i)).2
      cases hbody : (c.locals (some i)).body with
      | event w =>
        rw [hbody] at hexited
        have hctl : w.ctl = .exited := hexited
        show NetWorker.dataBytes w.ctl.events = 0
        rw [hctl]
        rfl
      | _ => rfl
  rw [hrest, Nat.add_zero] at hall
  rw [hclosed.counters]
  exact hall

/-- A response of 38 bytes comes in two data events. -/
theorem received_conserved_response :
    ∃ m, ((reported [okResponse.take 20, okResponse.drop 20]).locals none).body = .main m ∧
      m.report.counters .bytesReceived = 38 ∧
      ∑ i : Fin oneHttpRequest.threadCount,
        (netOf (reported [okResponse.take 20, okResponse.drop 20]) i).bytesReceived = 38 := by
  have hlog : (init oneHttpRequest 0).log (step oneHttpRequest) (drops oneHttpRequest)
      (answeredBy [okResponse.take 20, okResponse.drop 20]) = [] := by decide +kernel
  have hrun : DroppingRun oneHttpRequest 0
      (reported [okResponse.take 20, okResponse.drop 20]) [] := by
    rw [← hlog]
    exact logged_run _ (runOk_of_forall (fun _ _ _ => trivial) _)
  obtain ⟨m, hm⟩ := Runs.main_body hrun.reach
  have hend : (((reported [okResponse.take 20, okResponse.drop 20]).locals none).body.main?.any
      fun m => m.ctl = .done ∧ m.report.counters .bytesReceived = 38) = true := by decide +kernel
  rw [hm] at hend
  obtain ⟨hdone, hbytes⟩ := of_decide_eq_true hend
  have hall := (received_conserved (by decide) hrun).2.2 m hm hdone
  exact ⟨m, hm, hbytes, hall.trans (by rw [hbytes]; rfl)⟩

end Engine

end TitanBench
