import TitanBench.NetworkLedger

/-!
# The two tables of a network worker

A connection is entered in `connections` under its id and in `fdToConn` under its descriptor, by
different functions and at different times.

* `Churn` — what the worker does to connections that are set up.
* `Executes` — what one command does; every case of the handlers is one of its cases.
* `Consistent` — each table leads to the other; `Churn.consistent`, `Executes.consistent`.
* `tables_consistent` — the main result: every run in which `socket` returns descriptors that are
  not open.
-/

namespace TitanBench

/-- What the worker keeps of a connection it changes. -/
structure Connection.Follows (conn' conn : Connection) : Prop where
  fd : conn'.fd = conn.fd
  id : conn'.id = conn.id
  type : conn'.type = conn.type
  state : conn'.state = conn.state ∨ conn'.state = .connected

/-- The states a connection is in between two commands or events. -/
structure Connection.Sound (conn : Connection) : Prop where
  udp : conn.type = .udp → conn.state = .connected
  notClosed : conn.state ≠ .closed

theorem Connection.Sound.follows {conn conn' : Connection} (h : conn.Sound)
    (hf : conn'.Follows conn) : conn'.Sound := by
  rcases hf.state with hs | hs
  · refine ⟨fun ht => ?_, ?_⟩
    · rw [hs]
      exact h.udp (hf.type ▸ ht)
    · rw [hs]
      exact h.notClosed
  · refine ⟨fun _ => hs, ?_⟩
    rw [hs]
    exact fun h => nomatch h

/-- The id of a connection the command asks for. -/
def Command.opens : Command → Option ℕ
  | .createTcp id _ _ | .createUdp id _ => some id
  | _ => none

namespace NetWorker

/-- The two workers agree on everything but the logs, the interest set and the statistics. -/
structure SameTables (w w' : NetWorker) : Prop where
  started : w'.started = w.started
  epollFd : w'.epollFd = w.epollFd
  wakeFd : w'.wakeFd = w.wakeFd
  nextConnId : w'.nextConnId = w.nextConnId
  commands : w'.commands = w.commands
  connections : w'.connections = w.connections
  fdToConn : w'.fdToConn = w.fdToConn
  recvEvents : w'.recvEvents = w.recvEvents

theorem SameTables.refl (w : NetWorker) : SameTables w w :=
  ⟨rfl, rfl, rfl, rfl, rfl, rfl, rfl, rfl⟩

/-- Sequences of changes to connections that are set up. -/
inductive Churn : NetWorker → NetWorker → Prop
  | frame {w w' : NetWorker} : SameTables w w' → Churn w w'
  | alter {w : NetWorker} {id : ℕ} {conn conn' : Connection} :
      w.connections.lookup id = some conn → conn'.Follows conn →
      Churn w (w.setConnection id conn')
  | data {w : NetWorker} (id : ℕ) (bytes : Bytes) : Churn w (w.received id bytes)
  | remove {w : NetWorker} {id : ℕ} {conn : Connection} {err : NetErrc} :
      w.connections.lookup id = some conn → err ≠ .ok → Churn w (w.removeConnection id err)
  | trans {w w' w'' : NetWorker} : Churn w w' → Churn w' w'' → Churn w w''

theorem Churn.refl (w : NetWorker) : Churn w w := .frame (.refl w)

theorem sameTables_modFd (w : NetWorker) (fd : Option ℕ) (mask : EpollMask) :
    SameTables w (w.modFd fd mask) := by
  cases fd <;> exact ⟨rfl, rfl, rfl, rfl, rfl, rfl, rfl, rfl⟩

theorem sameTables_closeFd (w : NetWorker) (fd : ℕ) : SameTables w (w.closeFd fd) :=
  ⟨rfl, rfl, rfl, rfl, rfl, rfl, rfl, rfl⟩

/-! ## What a poll does between commands -/

theorem churn_removeConnection (w : NetWorker) (id : ℕ) {err : NetErrc} (herr : err ≠ .ok) :
    Churn w (w.removeConnection id err) := by
  cases hl : w.connections.lookup id with
  | none =>
    have hsame : w.removeConnection id err = w := by simp [removeConnection, hl]
    rw [hsame]
    exact .refl w
  | some conn => exact .remove hl herr

theorem churn_flushed {w : NetWorker} {id : ℕ} {conn : Connection}
    (hl : w.connections.lookup id = some conn) (st : Flush) : Churn w (w.flushed id conn st) := by
  have halter : Churn w (w.setConnection id { conn with pendingSend := st.pending }) :=
    .alter hl ⟨rfl, rfl, rfl, .inl rfl⟩
  exact halter.trans (.frame ⟨rfl, rfl, rfl, rfl, rfl, rfl, rfl, rfl⟩)

theorem churn_flushWrite (w : NetWorker) (id : ℕ) (sends : List SendResult) :
    Churn w (w.flushWrite id sends) := by
  unfold flushWrite
  cases hl : w.connections.lookup id with
  | none => exact .refl w
  | some conn =>
    have hflush := churn_flushed hl (flushLoop sends { pending := conn.pendingSend })
    dsimp only
    split_ifs with hfail
    · exact hflush.trans (churn_removeConnection _ _ (by decide))
    · exact hflush.trans (.frame (sameTables_modFd _ _ _))
    · exact hflush.trans (.frame (sameTables_modFd _ _ _))

theorem churn_drainRead (id : ℕ) (results : List RecvResult) (w : NetWorker) :
    Churn w (w.drainRead id results) := by
  induction results generalizing w with
  | nil => exact .refl w
  | cons result results ih =>
    cases result with
    | wouldBlock => exact .refl w
    | failed => exact churn_removeConnection w id (by decide)
    | data bytes =>
      cases bytes with
      | nil => exact churn_removeConnection w id (by decide)
      | cons b bytes => exact (Churn.data id (b :: bytes)).trans (ih _)

theorem churn_completeTcpConnect (w : NetWorker) (id : ℕ) (socketError : SocketError) :
    Churn w (w.completeTcpConnect id socketError) := by
  unfold completeTcpConnect
  cases hl : w.connections.lookup id with
  | none => exact .refl w
  | some conn =>
    dsimp only
    by_cases hstate : conn.type ≠ .tcp ∨ conn.state ≠ .connecting
    · rw [if_pos hstate]
      exact .refl w
    · rw [if_neg hstate]
      cases socketError with
      | none =>
        have halter : Churn w (w.setConnection id { conn with state := .connected }) :=
          .alter hl ⟨rfl, rfl, rfl, .inr rfl⟩
        exact halter.trans (.frame (sameTables_modFd _ _ _))
      | reported => exact churn_removeConnection w id (by decide)
      | unavailable => exact churn_removeConnection w id (by decide)

theorem churn_dispatchOut (w : NetWorker) (key : ℕ) (conn : Connection) (ev : ReadyEvent) :
    Churn w (w.dispatchOut key conn ev) := by
  have hcomplete : Churn w (w.completeIfConnecting conn ev.socketError) := by
    unfold completeIfConnecting
    split_ifs
    · exact churn_completeTcpConnect _ _ _
    · exact .refl w
  unfold dispatchOut
  dsimp only
  split
  · split
    · exact hcomplete
    · exact hcomplete.trans (churn_flushWrite _ _ _)
  · exact .refl w

theorem churn_dispatch (w : NetWorker) (ev : ReadyEvent) : Churn w (w.dispatch ev) := by
  unfold dispatch
  cases w.fdToConn.lookup ev.fd with
  | none => exact .refl w
  | some key =>
    dsimp only
    cases w.connections.lookup key with
    | none => exact .refl w
    | some conn =>
      have hout := churn_dispatchOut w key conn ev
      dsimp only
      split
      · exact churn_removeConnection w conn.id (by decide)
      · split
        · exact hout
        · split
          · exact hout.trans (churn_drainRead _ _ _)
          · exact hout

theorem churn_checkConnectTimeouts (w : NetWorker) (nowNs : ℤ) (order : List ℕ) :
    Churn w (w.checkConnectTimeouts nowNs order) := by
  unfold checkConnectTimeouts
  generalize List.filterMap _ _ = ids
  induction ids generalizing w with
  | nil => exact .refl w
  | cons id ids ih =>
    have hremove : Churn w (w.removeConnection id .timeout) :=
      churn_removeConnection w id (by decide)
    exact hremove.trans (ih _)

/-! ## What a command does -/

/-- The error event a handler emits for connection `id`. -/
def failure (id : ℕ) (err : NetErrc) : RecvEvent := { connId := id, isError := true, error := err }

theorem removeConnection_connections (w : NetWorker) (id : ℕ) (err : NetErrc) :
    (w.removeConnection id err).connections = w.connections.erase id := by
  unfold removeConnection
  cases hl : w.connections.lookup id with
  | none =>
    exact (AList.ext (List.kerase_of_notMem_keys (AList.lookup_eq_none.mp hl))).symm
  | some conn =>
    have hrelease := (sameBooks_releaseFd w conn.fd).connections
    dsimp only
    split_ifs <;> exact congrArg (AList.erase id) hrelease

theorem removeConnection_failure {w : NetWorker} {id : ℕ} {conn : Connection} {err : NetErrc}
    (hl : w.connections.lookup id = some conn) (hid : conn.id = id) (herr : err ≠ .ok) :
    (w.removeConnection id err).recvEvents = w.recvEvents ++ [failure id err] := by
  unfold removeConnection
  rw [hl]
  dsimp only
  rw [if_pos herr]
  cases conn.fd <;> simp [pushEvent, releaseFd, closeFd, failure, hid]

theorem mem_of_lookup {w : NetWorker} {id : ℕ} {conn : Connection}
    (hl : w.connections.lookup id = some conn) : id ∈ w.connections :=
  AList.lookup_isSome.mp (by rw [hl]; rfl)

/-- Everything the execution of a command can do. A connection that is refused has had a
descriptor or not. -/
inductive Executes (create : ℕ → CreateSys) (w : NetWorker) : Command → NetWorker → Prop
  | opened {cmd : Command} {id fd : ℕ} {conn : Connection} (mask : EpollMask) {w' : NetWorker} :
      cmd.opens = some id → id ∉ w.connections → (create id).socketFd = some fd →
      conn.id = id → conn.fd = some fd → conn.Sound →
      Churn ((w.setConnection id conn).registerFd id fd mask) w' → Executes create w cmd w'
  | refused {cmd : Command} {id : ℕ} {err : NetErrc} (fd : Option ℕ) {w' : NetWorker} :
      cmd.opens = some id → id ∉ w.connections → err ≠ .ok →
      (fd ≠ none → fd = (create id).socketFd) →
      SameTables ((w.releaseFd fd).pushEvent (failure id err)) w' → Executes create w cmd w'
  | collided {cmd : Command} {id : ℕ} {conn : Connection} :
      cmd.opens = some id → w.connections.lookup id = some conn →
      Executes create w cmd (w.removeConnection id .ioFailed)
  | sent {id : ℕ} {payload : Bytes} {w' : NetWorker} :
      id ∈ w.connections → Churn w w' → Executes create w (.send id payload) w'
  | missed {id : ℕ} {payload : Bytes} {w' : NetWorker} :
      id ∉ w.connections → SameTables (w.pushEvent (failure id .connectionNotFound)) w' →
      Executes create w (.send id payload) w'
  | closed (id : ℕ) : Executes create w (.close id) (w.removeConnection id .ok)

/-- A connection that was entered for nothing leaves only its error event. -/
theorem sameTables_undo {w v : NetWorker} {id : ℕ} {conn : Connection} {err : NetErrc}
    (hnew : id ∉ w.connections) (hid : conn.id = id) (herr : err ≠ .ok)
    (hsame : SameTables (w.setConnection id conn) v) :
    SameTables ((w.releaseFd conn.fd).pushEvent (failure id err)) (v.removeConnection id err) := by
  have herase : (w.connections.insert id conn).erase id = w.connections :=
    Table.erase_insert hnew conn
  have hl : v.connections.lookup id = some conn := by
    rw [hsame.connections]
    exact lookup_setConnection w id conn
  have hconn : v.connections.erase id = w.connections := by
    rw [hsame.connections]
    exact herase
  unfold removeConnection
  rw [hl]
  dsimp only
  rw [if_pos herr]
  have hfds := hsame.fdToConn
  have hevents := hsame.recvEvents
  cases hfd : conn.fd with
  | none =>
    refine ⟨hsame.started, hsame.epollFd, hsame.wakeFd, hsame.nextConnId, hsame.commands, hconn,
      hfds, ?_⟩
    simp [pushEvent, releaseFd, failure, hid, hevents, setConnection]
  | some fd =>
    refine ⟨hsame.started, hsame.epollFd, hsame.wakeFd, hsame.nextConnId, hsame.commands, hconn,
      congrArg (AList.erase fd) hfds, ?_⟩
    simp [pushEvent, releaseFd, closeFd, failure, hid, hevents, setConnection]

section Commands

variable {create : ℕ → CreateSys} {w : NetWorker} {cmd : Command} {id : ℕ}

/-- A handler that enters `conn` and gives it up again. -/
theorem executes_undo (hopens : cmd.opens = some id) (hnew : id ∉ w.connections)
    {conn : Connection} {err : NetErrc} (hid : conn.id = id) (herr : err ≠ .ok)
    (hfd : conn.fd ≠ none → conn.fd = (create id).socketFd) {v : NetWorker}
    (hsame : SameTables (w.setConnection id conn) v) :
    Executes create w cmd (v.removeConnection id err) :=
  .refused conn.fd hopens hnew herr hfd (sameTables_undo hnew hid herr hsame)

theorem setConnection_twice (w : NetWorker) (id : ℕ) (conn conn' : Connection) :
    (w.setConnection id conn).setConnection id conn' = w.setConnection id conn' := by
  simp [setConnection]

theorem executes_connectTcp (hopens : cmd.opens = some id) (hnew : id ∉ w.connections) {fd : ℕ}
    (hfd : (create id).socketFd = some fd) {init conn : Connection} (hid : conn.id = id)
    (hconn : conn.fd = some fd) (htype : conn.type = .tcp) (hstate : conn.state = .connecting)
    (sys : CreateSys) :
    Executes create w cmd ((w.setConnection id init).connectTcp id fd conn sys) := by
  have hsame : conn.fd ≠ none → conn.fd = (create id).socketFd := fun _ => hconn.trans hfd.symm
  have hsound : conn.Sound := by
    refine ⟨fun ht => ?_, ?_⟩
    · rw [htype] at ht
      cases ht
    · rw [hstate]
      exact fun h => nomatch h
  unfold connectTcp
  dsimp only
  rw [setConnection_twice]
  by_cases hadd : sys.epollAdd = false
  · rw [if_pos hadd]
    exact executes_undo hopens hnew hid (by decide) hsame (sameTables_closeFd _ _)
  · rw [if_neg hadd]
    refine .opened readWriteMask hopens hnew hfd hid hconn hsound ?_
    cases sys.connect with
    | connected =>
      have halter : Churn ((w.setConnection id conn).registerFd id fd readWriteMask)
          (((w.setConnection id conn).registerFd id fd readWriteMask).setConnection id
            { conn with state := .connected }) :=
        .alter (lookup_setConnection w id conn) ⟨rfl, rfl, rfl, .inr rfl⟩
      exact halter.trans (.frame (sameTables_modFd _ _ _))
    | inProgress => exact .refl _
    | failed => exact churn_removeConnection _ id (by decide)

theorem executes_connectUdp (hopens : cmd.opens = some id) (hnew : id ∉ w.connections) {fd : ℕ}
    (hfd : (create id).socketFd = some fd) {init conn : Connection} (hid : conn.id = id)
    (hconn : conn.fd = some fd) (hstate : conn.state = .connected) (sys : CreateSys) :
    Executes create w cmd ((w.setConnection id init).connectUdp id fd conn sys) := by
  have hsame : conn.fd ≠ none → conn.fd = (create id).socketFd := fun _ => hconn.trans hfd.symm
  have hsound : conn.Sound := by
    refine ⟨fun _ => hstate, ?_⟩
    rw [hstate]
    exact fun h => nomatch h
  unfold connectUdp
  dsimp only
  rw [setConnection_twice]
  by_cases hconnect : sys.connect ≠ .connected
  · rw [if_pos hconnect]
    exact executes_undo hopens hnew hid (by decide) hsame (sameTables_closeFd _ _)
  · rw [if_neg hconnect]
    by_cases hadd : sys.epollAdd = false
    · rw [if_pos hadd]
      exact executes_undo hopens hnew hid (by decide) hsame (sameTables_closeFd _ _)
    · rw [if_neg hadd]
      exact .opened readMask hopens hnew hfd hid hconn hsound (.refl _)

theorem executes_creates {w' : NetWorker} {endpoint : Endpoint} {conn : Connection}
    {connect : ℕ → NetWorker → NetWorker}
    (h : Creates w id endpoint (create id) conn connect w') (hopens : cmd.opens = some id)
    (hid : conn.id = id) (hfd : conn.fd = none)
    (hconnect : ∀ fd, id ∉ w.connections → (create id).socketFd = some fd →
      Executes create w cmd (connect fd (w.setConnection id conn))) :
    Executes create w cmd w' := by
  have hno : conn.fd ≠ none → conn.fd = (create id).socketFd := fun h => absurd hfd h
  cases h with
  | collided hmem =>
    obtain ⟨old, hl⟩ := Option.isSome_iff_exists.mp (AList.lookup_isSome.mpr hmem)
    exact .collided hopens hl
  | noSocket hnew herr _ _ => exact executes_undo hopens hnew hid herr hno (.refl _)
  | blocks hnew _ _ _ =>
    exact executes_undo hopens hnew hid (by decide) hno (sameTables_closeFd _ _)
  | connects hnew _ hsocket _ => exact hconnect _ hnew hsocket

theorem executes_createTcp (create : ℕ → CreateSys) (w : NetWorker) (id : ℕ) (endpoint : Endpoint)
    (timeoutMs : ℤ) :
    Executes create w (.createTcp id endpoint timeoutMs)
      (w.handleCreateTcp id endpoint timeoutMs (create id)) :=
  executes_creates (handleCreateTcp_creates w id endpoint timeoutMs (create id)) rfl rfl rfl
    fun _ hnew hsocket => executes_connectTcp rfl hnew hsocket rfl rfl rfl rfl _

theorem executes_createUdp (create : ℕ → CreateSys) (w : NetWorker) (id : ℕ)
    (endpoint : Endpoint) :
    Executes create w (.createUdp id endpoint) (w.handleCreateUdp id endpoint (create id)) :=
  executes_creates (handleCreateUdp_creates w id endpoint (create id)) rfl rfl rfl
    fun _ hnew hsocket => executes_connectUdp rfl hnew hsocket rfl rfl rfl _

theorem executes_send (create : ℕ → CreateSys) (w : NetWorker) (id : ℕ) (payload : Bytes) :
    Executes create w (.send id payload) (w.handleSend id payload) := by
  unfold handleSend
  cases hl : w.connections.lookup id with
  | none =>
    exact .missed (AList.lookup_eq_none.mp hl) ⟨rfl, rfl, rfl, rfl, rfl, rfl, rfl, rfl⟩
  | some conn =>
    have hmem : id ∈ w.connections := AList.lookup_isSome.mp (by rw [hl]; rfl)
    dsimp only
    split_ifs with hstate
    · exact .sent hmem (.frame ⟨rfl, rfl, rfl, rfl, rfl, rfl, rfl, rfl⟩)
    · refine .sent hmem (Churn.trans (.alter hl ?_) (.frame (sameTables_modFd _ _ _)))
      exact ⟨rfl, rfl, rfl, .inl rfl⟩

/-- Every case of the handlers. -/
theorem handleCommand_executes (create : ℕ → CreateSys) (w : NetWorker) (cmd : Command) :
    Executes create w cmd (w.handleCommand create cmd) := by
  cases cmd with
  | createTcp id endpoint timeoutMs => exact executes_createTcp create w id endpoint timeoutMs
  | createUdp id endpoint => exact executes_createUdp create w id endpoint
  | send id payload => exact executes_send create w id payload
  | close id => exact .closed id

end Commands

/-! ## The queue and the ids -/

/-- Neither the queue nor the id of the next connection has changed. -/
structure SameQueue (w w' : NetWorker) : Prop where
  nextConnId : w'.nextConnId = w.nextConnId
  commands : w'.commands = w.commands

theorem SameQueue.trans {w w' w'' : NetWorker} (h : SameQueue w w') (h' : SameQueue w' w'') :
    SameQueue w w'' :=
  ⟨h'.nextConnId.trans h.nextConnId, h'.commands.trans h.commands⟩

theorem SameTables.sameQueue {w w' : NetWorker} (h : SameTables w w') : SameQueue w w' :=
  ⟨h.nextConnId, h.commands⟩

theorem sameQueue_releaseFd (w : NetWorker) (fd : Option ℕ) : SameQueue w (w.releaseFd fd) := by
  cases fd <;> exact ⟨rfl, rfl⟩

theorem sameQueue_removeConnection (w : NetWorker) (id : ℕ) (err : NetErrc) :
    SameQueue w (w.removeConnection id err) := by
  unfold removeConnection
  cases w.connections.lookup id with
  | none => exact ⟨rfl, rfl⟩
  | some conn =>
    have hrelease := sameQueue_releaseFd w conn.fd
    dsimp only
    split_ifs <;> exact ⟨hrelease.nextConnId, hrelease.commands⟩

theorem Churn.sameQueue {w w' : NetWorker} (h : Churn w w') : SameQueue w w' := by
  induction h with
  | frame hs => exact hs.sameQueue
  | remove _ _ => exact sameQueue_removeConnection _ _ _
  | trans _ _ ih ih' => exact ih.trans ih'
  | _ => exact ⟨rfl, rfl⟩

theorem Executes.sameQueue {create : ℕ → CreateSys} {w w' : NetWorker} {cmd : Command}
    (h : Executes create w cmd w') : SameQueue w w' := by
  cases h with
  | @opened _ id fd conn mask _ _ _ _ _ _ _ hchurn =>
    have hset : SameQueue w ((w.setConnection id conn).registerFd id fd mask) := ⟨rfl, rfl⟩
    exact hset.trans hchurn.sameQueue
  | refused fd _ _ _ _ hs =>
    have hrelease := sameQueue_releaseFd w fd
    exact ⟨hs.nextConnId.trans hrelease.nextConnId, hs.commands.trans hrelease.commands⟩
  | collided _ _ => exact sameQueue_removeConnection _ _ _
  | sent _ hchurn => exact hchurn.sameQueue
  | missed _ hs => exact ⟨hs.nextConnId, hs.commands⟩
  | closed id => exact sameQueue_removeConnection _ _ _

theorem processCommands_nextConnId (create : ℕ → CreateSys) (w : NetWorker) :
    (w.processCommands create).nextConnId = w.nextConnId := by
  have hfold : ∀ (cmds : List Command) (w : NetWorker),
      (cmds.foldl (handleCommand create) w).nextConnId = w.nextConnId := by
    intro cmds
    induction cmds with
    | nil => exact fun _ => rfl
    | cons cmd cmds ih =>
      intro w
      exact (ih _).trans (handleCommand_executes create w cmd).sameQueue.nextConnId
  exact hfold w.commands { w with commands := [] }

theorem handleReady_nextConnId (w : NetWorker) (ev : ReadyEvent) :
    (w.handleReady ev).nextConnId = w.nextConnId := by
  unfold handleReady
  split
  · exact processCommands_nextConnId _ _
  · exact (churn_dispatch w ev).sameQueue.nextConnId

theorem pollOnce_nextConnId (sys : PollSys) (w : NetWorker) :
    (w.pollOnce sys).1.nextConnId = w.nextConnId := by
  have hevents : ∀ (events : List ReadyEvent) (w : NetWorker),
      (events.foldl handleReady w).nextConnId = w.nextConnId := by
    intro events
    induction events with
    | nil => exact fun _ => rfl
    | cons ev events ih => exact fun w => (ih _).trans (handleReady_nextConnId w ev)
  have hcheck := fun (w : NetWorker) nowNs order =>
    (churn_checkConnectTimeouts w nowNs order).sameQueue.nextConnId
  unfold pollOnce
  split
  · rfl
  · have hfirst := (hcheck (w.processCommands sys.create) sys.beforeNs sys.beforeOrder).trans
      (processCommands_nextConnId sys.create w)
    cases sys.wait with
    | interrupted => exact hfirst
    | failed => exact hfirst
    | ready events => exact (hcheck _ _ _).trans ((hevents events _).trans hfirst)

/-! ## Consistency -/

/-- The descriptors the worker has open. -/
def openFds (w : NetWorker) : List ℕ :=
  w.epollFd.toList ++ w.wakeFd.toList ++ w.connections.entries.filterMap (·.2.fd)

/-- The connection under `id` has its own id, a state for its type, and a descriptor that leads
back to it. -/
structure Linked (w : NetWorker) (id : ℕ) (conn : Connection) : Prop where
  keyed : conn.id = id
  sound : conn.Sound
  back : ∃ fd, conn.fd = some fd ∧ w.fdToConn.lookup fd = some id

/-- Each of the two tables leads to the other. -/
structure Consistent (w : NetWorker) : Prop where
  route : ∀ fd id, w.fdToConn.lookup fd = some id →
    ∃ conn, w.connections.lookup id = some conn ∧ conn.fd = some fd
  linked : ∀ id conn, w.connections.lookup id = some conn → w.Linked id conn

theorem mem_openFds {w : NetWorker} {id fd : ℕ} {conn : Connection}
    (hl : w.connections.lookup id = some conn) (hfd : conn.fd = some fd) : fd ∈ w.openFds := by
  refine List.mem_append_right _ (List.mem_filterMap.mpr ⟨⟨id, conn⟩, ?_, hfd⟩)
  exact AList.mem_lookup_iff.mp hl

namespace Consistent

variable {w w' : NetWorker} {id : ℕ} {conn : Connection}

theorem congr (h : w.Consistent) (hconn : w'.connections = w.connections)
    (hfds : w'.fdToConn = w.fdToConn) : w'.Consistent := by
  constructor
  · intro fd id hr
    rw [hfds] at hr
    rw [hconn]
    exact h.route fd id hr
  · intro id conn hl
    rw [hconn] at hl
    have hold := h.linked id conn hl
    refine ⟨hold.keyed, hold.sound, ?_⟩
    rw [hfds]
    exact hold.back

theorem empty (hconn : w.connections = ∅) (hfds : w.fdToConn = ∅) : w.Consistent := by
  constructor
  · intro fd id hr
    rw [hfds] at hr
    cases hr
  · intro id conn hl
    rw [hconn] at hl
    cases hl

/-- No two connections share a descriptor. -/
theorem distinct (h : w.Consistent) {id' : ℕ} {conn' : Connection}
    (hl : w.connections.lookup id = some conn) (hl' : w.connections.lookup id' = some conn')
    (hfd : conn.fd = conn'.fd) : id = id' := by
  obtain ⟨fd, hf, hb⟩ := (h.linked id conn hl).back
  obtain ⟨fd', hf', hb'⟩ := (h.linked id' conn' hl').back
  rw [hf, hf'] at hfd
  cases hfd
  rw [hb] at hb'
  exact Option.some.inj hb'

/-- A descriptor that is not open has no route. -/
theorem noRoute (h : w.Consistent) {fd : ℕ} (hfd : fd ∉ w.openFds) :
    w.fdToConn.lookup fd = none := by
  cases hr : w.fdToConn.lookup fd with
  | none => rfl
  | some id =>
    obtain ⟨conn, hl, hf⟩ := h.route fd id hr
    exact absurd (mem_openFds hl hf) hfd

theorem alter (h : w.Consistent) {conn' : Connection} (hl : w.connections.lookup id = some conn)
    (hf : conn'.Follows conn) : (w.setConnection id conn').Consistent := by
  constructor
  · intro fd k hr
    obtain ⟨c, hc, hfd⟩ := h.route fd k hr
    by_cases hkid : k = id
    · subst hkid
      rw [hl] at hc
      cases hc
      exact ⟨conn', lookup_setConnection w k conn', hf.fd.trans hfd⟩
    · exact ⟨c, (AList.lookup_insert_ne hkid).trans hc, hfd⟩
  · intro k c hk
    by_cases hkid : k = id
    · subst hkid
      rw [lookup_setConnection] at hk
      cases hk
      have hold := h.linked k conn hl
      refine ⟨hf.id.trans hold.keyed, hold.sound.follows hf, ?_⟩
      rw [hf.fd]
      exact hold.back
    · have hold := h.linked k c ((AList.lookup_insert_ne hkid).symm.trans hk)
      exact ⟨hold.keyed, hold.sound, hold.back⟩

/-- A new connection with a descriptor that was not open. -/
theorem enter (h : w.Consistent) {fd : ℕ} (hnew : id ∉ w.connections) (hfresh : fd ∉ w.openFds)
    (hid : conn.id = id) (hfd : conn.fd = some fd) (hsound : conn.Sound) (mask : EpollMask) :
    ((w.setConnection id conn).registerFd id fd mask).Consistent := by
  have hnone : w.connections.lookup id = none := AList.lookup_eq_none.mpr hnew
  constructor
  · intro f k hr
    by_cases hf : f = fd
    · subst hf
      have hk : id = k := Option.some.inj ((AList.lookup_insert w.fdToConn).symm.trans hr)
      subst hk
      exact ⟨conn, lookup_setConnection w id conn, hfd⟩
    · obtain ⟨c, hc, hcf⟩ := h.route f k ((AList.lookup_insert_ne hf).symm.trans hr)
      have hne : k ≠ id := by
        intro heq
        rw [heq, hnone] at hc
        cases hc
      exact ⟨c, (AList.lookup_insert_ne hne).trans hc, hcf⟩
  · intro k c hk
    by_cases hkid : k = id
    · subst hkid
      have hc : conn = c := Option.some.inj ((lookup_setConnection w k conn).symm.trans hk)
      subst hc
      exact ⟨hid, hsound, fd, hfd, AList.lookup_insert _⟩
    · have hl := (AList.lookup_insert_ne hkid).symm.trans hk
      have hold := h.linked k c hl
      obtain ⟨f, hf, hb⟩ := hold.back
      have hne : f ≠ fd := by
        intro heq
        exact hfresh (heq ▸ mem_openFds hl hf)
      exact ⟨hold.keyed, hold.sound, f, hf, (AList.lookup_insert_ne hne).trans hb⟩

theorem removeConnection (h : w.Consistent) (id : ℕ) (err : NetErrc) :
    (w.removeConnection id err).Consistent := by
  unfold NetWorker.removeConnection
  cases hl : w.connections.lookup id with
  | none => exact h
  | some conn =>
    obtain ⟨fd, hfd, hback⟩ := (h.linked id conn hl).back
    have hgone : ∀ v : NetWorker, v.connections = w.connections.erase id →
        v.fdToConn = w.fdToConn.erase fd → v.Consistent := by
      intro v hconn hfds
      constructor
      · intro f k hr
        rw [hfds] at hr
        have hf : f ≠ fd := by
          intro heq
          rw [heq, AList.lookup_erase] at hr
          cases hr
        rw [AList.lookup_erase_ne hf] at hr
        obtain ⟨c, hc, hcf⟩ := h.route f k hr
        have hk : k ≠ id := by
          intro heq
          rw [heq, hl] at hc
          cases hc
          rw [hfd] at hcf
          exact hf (Option.some.inj hcf).symm
        rw [hconn, AList.lookup_erase_ne hk]
        exact ⟨c, hc, hcf⟩
      · intro k c hk
        rw [hconn] at hk
        have hne : k ≠ id := by
          intro heq
          rw [heq, AList.lookup_erase] at hk
          cases hk
        rw [AList.lookup_erase_ne hne] at hk
        have hold := h.linked k c hk
        obtain ⟨f, hf, hb⟩ := hold.back
        have hff : f ≠ fd := by
          intro heq
          rw [heq, hback] at hb
          exact hne (Option.some.inj hb).symm
        refine ⟨hold.keyed, hold.sound, f, hf, ?_⟩
        rw [hfds, AList.lookup_erase_ne hff]
        exact hb
    dsimp only
    rw [hfd]
    split_ifs <;> exact hgone _ rfl rfl

end Consistent

theorem Churn.consistent {w w' : NetWorker} (hc : Churn w w') (h : w.Consistent) :
    w'.Consistent := by
  induction hc with
  | frame hs => exact h.congr hs.connections hs.fdToConn
  | alter hl hf => exact h.alter hl hf
  | data id bytes => exact h.congr rfl rfl
  | remove hl herr => exact h.removeConnection _ _
  | trans _ _ ih ih' => exact ih' (ih h)

/-- The descriptor `socket` returns for the command, if it is asked, is not open. -/
def FreshSocket (create : ℕ → CreateSys) (w : NetWorker) (cmd : Command) : Prop :=
  ∀ id ∈ cmd.opens, ∀ fd ∈ (create id).socketFd, fd ∉ w.openFds

instance (create : ℕ → CreateSys) (w : NetWorker) (cmd : Command) :
    Decidable (FreshSocket create w cmd) := by
  unfold FreshSocket
  infer_instance

theorem Executes.consistent {create : ℕ → CreateSys} {w w' : NetWorker} {cmd : Command}
    (he : Executes create w cmd w') (hfresh : FreshSocket create w cmd) (h : w.Consistent) :
    w'.Consistent := by
  cases he with
  | opened mask hopens hnew hfd hid hconn hsound hchurn =>
    exact hchurn.consistent (h.enter hnew (hfresh _ hopens _ hfd) hid hconn hsound mask)
  | @refused _ id _ fd _ hopens hnew herr hsame htables =>
    cases fd with
    | none => exact h.congr htables.connections htables.fdToConn
    | some fd =>
      -- The descriptor was not entered, so taking it out changes nothing.
      have hnone := h.noRoute (hfresh id hopens fd (hsame (fun h => nomatch h)).symm)
      have herase : w.fdToConn.erase fd = w.fdToConn :=
        AList.ext (List.kerase_of_notMem_keys (AList.lookup_eq_none.mp hnone))
      exact h.congr htables.connections (htables.fdToConn.trans herase)
  | collided hopens hl => exact h.removeConnection _ _
  | sent hmem hchurn => exact hchurn.consistent h
  | missed hmem htables => exact h.congr htables.connections htables.fdToConn
  | closed id => exact h.removeConnection _ _

/-! ## Runs -/

/-- The states between the commands of a queue. -/
def commandStates (create : ℕ → CreateSys) (w : NetWorker) : List Command → List NetWorker
  | [] => [w]
  | cmd :: cmds => w :: commandStates create (w.handleCommand create cmd) cmds

/-- The states a call passes through between two commands or events, the last one included. -/
def statesOf (w : NetWorker) : Action → List NetWorker
  | .processCommands create => commandStates create { w with commands := [] } w.commands
  | .ready ev =>
    if w.wakeFd = some ev.fd then commandStates ev.create { w with commands := [] } w.commands
    else [w.handleReady ev]
  | a => [w.act a]

/-- All such states of a run. -/
def runStates (w : NetWorker) : List Action → List NetWorker
  | [] => [w]
  | a :: actions => w.statesOf a ++ runStates (w.act a) actions

/-- Each command of a queue gets a descriptor that is not open when it is executed. -/
def FreshSockets (create : ℕ → CreateSys) (w : NetWorker) : List Command → Prop
  | [] => True
  | cmd :: cmds =>
    FreshSocket create w cmd ∧ FreshSockets create (w.handleCommand create cmd) cmds

instance FreshSockets.decidable (create : ℕ → CreateSys) :
    ∀ w cmds, Decidable (FreshSockets create w cmds)
  | _, [] => isTrue trivial
  | w, cmd :: cmds =>
    haveI := FreshSockets.decidable create (w.handleCommand create cmd) cmds
    instDecidableAnd

/-- The same for the commands a call executes. -/
def FreshCall (w : NetWorker) : Action → Prop
  | .processCommands create => FreshSockets create { w with commands := [] } w.commands
  | .ready ev =>
    w.wakeFd = some ev.fd → FreshSockets ev.create { w with commands := [] } w.commands
  | _ => True

instance (w : NetWorker) (a : Action) : Decidable (FreshCall w a) := by
  cases a <;> unfold FreshCall <;> infer_instance

/-- The same for all calls of a run. -/
def FreshRun (w : NetWorker) : List Action → Prop
  | [] => True
  | a :: actions => FreshCall w a ∧ FreshRun (w.act a) actions

instance FreshRun.decidable : ∀ w actions, Decidable (FreshRun w actions)
  | _, [] => isTrue trivial
  | w, a :: actions =>
    haveI := FreshRun.decidable (w.act a) actions
    instDecidableAnd

theorem Consistent.commandStates {create : ℕ → CreateSys} {w : NetWorker} (h : w.Consistent)
    {cmds : List Command} (hfresh : FreshSockets create w cmds) :
    (∀ v ∈ commandStates create w cmds, v.Consistent) ∧
      (cmds.foldl (handleCommand create) w).Consistent := by
  induction cmds generalizing w with
  | nil =>
    refine ⟨fun v hv => ?_, h⟩
    rw [List.mem_singleton.mp hv]
    exact h
  | cons cmd cmds ih =>
    have hnext := (handleCommand_executes create w cmd).consistent hfresh.1 h
    obtain ⟨hstates, hlast⟩ := ih hnext hfresh.2
    refine ⟨fun v hv => ?_, hlast⟩
    rcases List.mem_cons.mp hv with rfl | hv
    · exact h
    · exact hstates v hv

theorem Consistent.start {w : NetWorker} (h : w.Consistent) (sys : StartSys) :
    (w.start sys).1.Consistent := by
  unfold NetWorker.start
  split
  · exact h
  · cases sys.epollFd with
    | none => exact h.congr rfl rfl
    | some epollFd =>
      cases sys.wakeFd with
      | none => exact .empty rfl rfl
      | some wakeFd =>
        dsimp only
        split
        · exact .empty rfl rfl
        · exact h.congr rfl rfl

theorem Consistent.stop {w : NetWorker} (h : w.Consistent) : w.stop.Consistent := by
  unfold NetWorker.stop
  split
  · exact h
  · exact .empty rfl rfl

/-- One call. -/
theorem Consistent.statesOf {w : NetWorker} (h : w.Consistent) {a : Action}
    (hfresh : FreshCall w a) :
    (∀ v ∈ w.statesOf a, v.Consistent) ∧ (w.act a).Consistent := by
  have hone : ∀ {u : NetWorker}, u.Consistent → (∀ v ∈ [u], v.Consistent) ∧ u.Consistent := by
    intro u hu
    refine ⟨fun v hv => ?_, hu⟩
    rw [List.mem_singleton.mp hv]
    exact hu
  have hempty : Consistent { w with commands := [] } := h.congr rfl rfl
  cases a with
  | start sys => exact hone (h.start sys)
  | stop => exact hone h.stop
  | createTcp endpoint timeoutMs sys =>
    refine hone ?_
    unfold act createTcpConnection
    dsimp only
    split_ifs <;> exact h.congr rfl rfl
  | createUdp endpoint sys =>
    refine hone ?_
    unfold act createUdpConnection
    dsimp only
    split_ifs <;> exact h.congr rfl rfl
  | send id payload sys =>
    refine hone ?_
    unfold act NetWorker.send
    dsimp only
    split_ifs <;> exact h.congr rfl rfl
  | close id sys =>
    refine hone ?_
    unfold act closeConnection
    dsimp only
    split_ifs <;> exact h.congr rfl rfl
  | clearEvents => exact hone (h.congr rfl rfl)
  | processCommands create => exact hempty.commandStates hfresh
  | checkConnectTimeouts nowNs order =>
    exact hone ((churn_checkConnectTimeouts w nowNs order).consistent h)
  | ready ev =>
    by_cases hwake : w.wakeFd = some ev.fd
    · have hstates := hempty.commandStates (hfresh hwake)
      simpa only [NetWorker.statesOf, act, handleReady, if_pos hwake, processCommands] using hstates
    · have hnext : (w.handleReady ev).Consistent := by
        unfold handleReady
        rw [if_neg hwake]
        exact (churn_dispatch w ev).consistent h
      simpa only [NetWorker.statesOf, act, if_neg hwake] using hone hnext

theorem Consistent.runStates {w : NetWorker} (h : w.Consistent) {actions : List Action}
    (hfresh : FreshRun w actions) : ∀ v ∈ runStates w actions, v.Consistent := by
  induction actions generalizing w with
  | nil =>
    intro v hv
    rw [List.mem_singleton.mp hv]
    exact h
  | cons a actions ih =>
    obtain ⟨hstates, hlast⟩ := h.statesOf hfresh.1
    intro v hv
    rcases List.mem_append.mp hv with hv | hv
    · exact hstates v hv
    · exact ih hlast hfresh.2 v hv

/-- **The two tables stay consistent.** From the start of a worker, in every run in which `socket`
returns only descriptors that are not open, between any two commands or events: each route leads
to a connection with that descriptor, each connection has its own id, a state for its type and a
descriptor whose route leads back to it, and no two connections share a descriptor. -/
theorem tables_consistent (sys : StartSys) (actions : List Action)
    (hfresh : FreshRun (({} : NetWorker).start sys).1 actions) :
    ∀ v ∈ runStates (({} : NetWorker).start sys).1 actions, v.Consistent ∧
      ∀ id id' conn conn', v.connections.lookup id = some conn →
        v.connections.lookup id' = some conn' → conn.fd = conn'.fd → id = id' := by
  have hstart : (({} : NetWorker).start sys).1.Consistent :=
    Consistent.start (.empty rfl rfl) sys
  intro v hv
  have hok := hstart.runStates hfresh v hv
  exact ⟨hok, fun id id' conn conn' hl hl' hfd => hok.distinct hl hl' hfd⟩

/-- The peer of connection 1 hangs up, and connection 2 gets its descriptor. -/
def reusedActions : List Action :=
  [.createTcp { host := ascii "h", port := 80 } 3000 {},
    .createUdp { host := ascii "h", port := 53 } {},
    .processCommands fun id => { socketFd := some (4 + id) },
    .ready { fd := 5, mask := { epollHup := true } },
    .createTcp { host := ascii "h", port := 80 } 3000 {},
    .processCommands fun _ => { socketFd := some 5, connect := .inProgress }]

theorem tables_consistent_reused :
    ((({} : NetWorker).start {}).1.run reusedActions).Consistent ∧
      ((({} : NetWorker).start {}).1.run reusedActions).fdToConn.lookup 5 = some 3 := by
  refine ⟨(tables_consistent {} reusedActions (by decide) _ ?_).1, by decide⟩
  simp only [runStates, reusedActions, List.mem_append]
  exact .inr (.inr (.inr (.inr (.inr (.inr (List.mem_singleton.mpr rfl))))))

end NetWorker

end TitanBench
