import TitanBench.Network

/-!
# What the network worker can do to its connections

Every function of the worker is a sequence of a few moves on the connection table and on the logs
of payloads. An invariant of these is proved once for each move.

* `Moves ps w w'` — the worker gets from `w` to `w'`, taking in the payloads `ps`.
* `moves_dispatch`, `moves_handleCommand`, … — the functions of a poll are such sequences.
-/

namespace TitanBench

namespace NetWorker

/-- The two workers agree on the connection table, the queue and the logs of payloads, and on
whether they are started. -/
structure SameBooks (w w' : NetWorker) : Prop where
  started : w'.started = w.started
  connections : w'.connections = w.connections
  commands : w'.commands = w.commands
  bytesSent : w'.bytesSent = w.bytesSent
  submitted : w'.submitted = w.submitted
  delivered : w'.delivered = w.delivered
  discarded : w'.discarded = w.discarded

theorem SameBooks.refl (w : NetWorker) : SameBooks w w := ⟨rfl, rfl, rfl, rfl, rfl, rfl, rfl⟩

theorem SameBooks.trans {w w' w'' : NetWorker} (h : SameBooks w w') (h' : SameBooks w' w'') :
    SameBooks w w'' :=
  ⟨h'.started.trans h.started, h'.connections.trans h.connections, h'.commands.trans h.commands,
    h'.bytesSent.trans h.bytesSent, h'.submitted.trans h.submitted,
    h'.delivered.trans h.delivered, h'.discarded.trans h.discarded⟩

/-- Sequences of moves, with the payloads they take in. -/
inductive Moves : List Bytes → NetWorker → NetWorker → Prop
  | frame {w w' : NetWorker} : SameBooks w w' → Moves [] w w'
  | add {w : NetWorker} {id : ℕ} {conn : Connection} :
      id ∉ w.connections → conn.id = id → conn.pendingSend = [] →
      Moves [] w (w.setConnection id conn)
  | alter {w : NetWorker} {id : ℕ} {conn conn' : Connection} :
      w.connections.lookup id = some conn → conn'.id = conn.id →
      conn'.pendingSend = conn.pendingSend → Moves [] w (w.setConnection id conn')
  | queue {w : NetWorker} {id : ℕ} {conn : Connection} (payload : Bytes) :
      w.connections.lookup id = some conn →
      Moves [payload] w
        (w.setConnection id { conn with pendingSend := conn.pendingSend ++ [{ data := payload }] })
  | discard {w : NetWorker} (payload : Bytes) :
      Moves [payload] w { w with discarded := w.discarded ++ [payload] }
  | remove {w : NetWorker} {id : ℕ} {conn : Connection} :
      w.connections.lookup id = some conn →
      Moves [] w
        { w with
          connections := w.connections.erase id
          discarded := w.discarded ++ conn.pendingSend.map (·.data) }
  | flush {w : NetWorker} {id : ℕ} {conn : Connection} (sends : List SendResult) :
      w.connections.lookup id = some conn →
      Moves [] w (w.flushed id conn (flushLoop sends { pending := conn.pendingSend }))
  | trans {ps qs : List Bytes} {w w' w'' : NetWorker} :
      Moves ps w w' → Moves qs w' w'' → Moves (ps ++ qs) w w''

theorem Moves.refl {w : NetWorker} : Moves [] w w := .frame (.refl w)

theorem Moves.then {ps : List Bytes} {w w' w'' : NetWorker} (h : Moves ps w w')
    (h' : Moves [] w' w'') : Moves ps w w'' := by
  simpa using h.trans h'

/-! ## Functions that keep the books -/

theorem sameBooks_pushEvent (w : NetWorker) (event : RecvEvent) :
    SameBooks w (w.pushEvent event) := ⟨rfl, rfl, rfl, rfl, rfl, rfl, rfl⟩

theorem sameBooks_closeFd (w : NetWorker) (fd : ℕ) : SameBooks w (w.closeFd fd) :=
  ⟨rfl, rfl, rfl, rfl, rfl, rfl, rfl⟩

theorem sameBooks_modFd (w : NetWorker) (fd : Option ℕ) (mask : EpollMask) :
    SameBooks w (w.modFd fd mask) := by
  cases fd <;> exact ⟨rfl, rfl, rfl, rfl, rfl, rfl, rfl⟩

theorem sameBooks_registerFd (w : NetWorker) (id fd : ℕ) (mask : EpollMask) :
    SameBooks w (w.registerFd id fd mask) := ⟨rfl, rfl, rfl, rfl, rfl, rfl, rfl⟩

theorem sameBooks_received (w : NetWorker) (id : ℕ) (bytes : Bytes) :
    SameBooks w (w.received id bytes) := ⟨rfl, rfl, rfl, rfl, rfl, rfl, rfl⟩

theorem sameBooks_releaseFd (w : NetWorker) (fd : Option ℕ) : SameBooks w (w.releaseFd fd) := by
  cases fd <;> exact ⟨rfl, rfl, rfl, rfl, rfl, rfl, rfl⟩

/-! ## Functions of a poll -/

theorem moves_removeConnection (w : NetWorker) (id : ℕ) (err : NetErrc) :
    Moves [] w (w.removeConnection id err) := by
  unfold removeConnection
  cases hl : w.connections.lookup id with
  | none => exact .refl
  | some conn =>
    have hr := sameBooks_releaseFd w conn.fd
    dsimp only
    split_ifs with herr
    · have hp := hr.trans
        (sameBooks_pushEvent _ { connId := conn.id, isError := true, error := err })
      exact Moves.trans (.frame hp) (.remove (hp.connections ▸ hl))
    · exact Moves.trans (.frame hr) (.remove (hr.connections ▸ hl))

theorem lookup_setConnection (w : NetWorker) (id : ℕ) (conn : Connection) :
    (w.setConnection id conn).connections.lookup id = some conn := AList.lookup_insert _

theorem moves_connectTcp (w : NetWorker) (id fd : ℕ) {old conn : Connection} (sys : CreateSys)
    (hold : w.connections.lookup id = some old) (hid : conn.id = old.id)
    (hp : conn.pendingSend = old.pendingSend) :
    Moves [] w (w.connectTcp id fd conn sys) := by
  have hset : Moves [] w (w.setConnection id conn) := .alter hold hid hp
  unfold connectTcp
  dsimp only
  by_cases hadd : sys.epollAdd = false
  · rw [if_pos hadd]
    exact (hset.then (.frame (sameBooks_closeFd _ fd))).then (moves_removeConnection _ _ _)
  · rw [if_neg hadd]
    have hreg := hset.then (.frame (sameBooks_registerFd _ id fd readWriteMask))
    cases sys.connect with
    | connected =>
      have hdone : Moves [] w ((w.setConnection id conn).registerFd id fd readWriteMask
          |>.setConnection id { conn with state := .connected }) :=
        hreg.then (.alter (lookup_setConnection w id conn) rfl rfl)
      exact hdone.then (.frame (sameBooks_modFd _ _ _))
    | inProgress => exact hreg
    | failed => exact hreg.then (moves_removeConnection _ _ _)

/-- What the create handlers have in common: `conn` is entered, and it is removed again unless there
is a descriptor for it, with which `connect` goes on. -/
inductive Creates (w : NetWorker) (id : ℕ) (endpoint : Endpoint) (sys : CreateSys)
    (conn : Connection) (connect : ℕ → NetWorker → NetWorker) : NetWorker → Prop
  | collided : id ∈ w.connections →
      Creates w id endpoint sys conn connect (w.removeConnection id .ioFailed)
  | noSocket {err : NetErrc} : id ∉ w.connections → err ≠ .ok → err ≠ .connectionNotFound →
      (buildSockAddr endpoint sys.resolved = false ∨ sys.socketFd = none) →
      Creates w id endpoint sys conn connect ((w.setConnection id conn).removeConnection id err)
  | blocks {fd : ℕ} : id ∉ w.connections → buildSockAddr endpoint sys.resolved ≠ false →
      sys.socketFd = some fd → sys.nonBlocking = false →
      Creates w id endpoint sys conn connect
        (((w.setConnection id conn).closeFd fd).removeConnection id .setNonBlockingFailed)
  | connects {fd : ℕ} : id ∉ w.connections → buildSockAddr endpoint sys.resolved ≠ false →
      sys.socketFd = some fd → sys.nonBlocking ≠ false →
      Creates w id endpoint sys conn connect (connect fd (w.setConnection id conn))

theorem creates_of_checks (w : NetWorker) (id : ℕ) (endpoint : Endpoint) (sys : CreateSys)
    (conn : Connection) (connect : ℕ → NetWorker → NetWorker) :
    Creates w id endpoint sys conn connect
      (if id ∈ w.connections then w.removeConnection id .ioFailed
      else if buildSockAddr endpoint sys.resolved = false then
        (w.setConnection id conn).removeConnection id .resolveFailed
      else
        match sys.socketFd with
        | none => (w.setConnection id conn).removeConnection id .socketCreateFailed
        | some fd =>
          if sys.nonBlocking = false then
            ((w.setConnection id conn).closeFd fd).removeConnection id .setNonBlockingFailed
          else connect fd (w.setConnection id conn)) := by
  by_cases hmem : id ∈ w.connections
  · rw [if_pos hmem]
    exact .collided hmem
  rw [if_neg hmem]
  by_cases hres : buildSockAddr endpoint sys.resolved = false
  · rw [if_pos hres]
    exact .noSocket hmem (by decide) (by decide) (.inl hres)
  rw [if_neg hres]
  cases hfd : sys.socketFd with
  | none => exact .noSocket hmem (by decide) (by decide) (.inr hfd)
  | some fd =>
    dsimp only
    by_cases hblock : sys.nonBlocking = false
    · rw [if_pos hblock]
      exact .blocks hmem hres hfd hblock
    · rw [if_neg hblock]
      exact .connects hmem hres hfd hblock

theorem handleCreateTcp_creates (w : NetWorker) (id : ℕ) (endpoint : Endpoint) (timeoutMs : ℤ)
    (sys : CreateSys) :
    Creates w id endpoint sys (initialTcp id timeoutMs sys.beginNs)
      (fun fd => connectTcp id fd
        { initialTcp id timeoutMs sys.beginNs with
          fd := some fd, state := .connecting, connectBeginNs := sys.laterNs } sys)
      (w.handleCreateTcp id endpoint timeoutMs sys) := creates_of_checks _ _ _ _ _ _

theorem handleCreateUdp_creates (w : NetWorker) (id : ℕ) (endpoint : Endpoint) (sys : CreateSys) :
    Creates w id endpoint sys (initialUdp id)
      (fun fd => connectUdp id fd { initialUdp id with fd := some fd, state := .connected } sys)
      (w.handleCreateUdp id endpoint sys) := creates_of_checks _ _ _ _ _ _

/-- The handler has the connection in the table at some point. -/
theorem Creates.entered {w w' : NetWorker} {id : ℕ} {endpoint : Endpoint} {sys : CreateSys}
    {conn : Connection} {connect : ℕ → NetWorker → NetWorker}
    (h : Creates w id endpoint sys conn connect w') (hid : conn.id = id)
    (hp : conn.pendingSend = [])
    (hconnect : ∀ fd, Moves [] (w.setConnection id conn) (connect fd (w.setConnection id conn))) :
    ∃ v, id ∈ v.connections ∧ Moves [] w v ∧ Moves [] v w' := by
  have hmem : id ∈ (w.setConnection id conn).connections := AList.mem_insert _ |>.mpr (.inl rfl)
  cases h with
  | collided hin => exact ⟨w, hin, .refl, moves_removeConnection _ _ _⟩
  | noSocket hnew => exact ⟨_, hmem, .add hnew hid hp, moves_removeConnection _ _ _⟩
  | blocks hnew =>
    refine ⟨_, hmem, .add hnew hid hp, ?_⟩
    exact (Moves.frame (sameBooks_closeFd _ _)).then (moves_removeConnection _ _ _)
  | connects hnew => exact ⟨_, hmem, .add hnew hid hp, hconnect _⟩

theorem entered_handleCreateTcp (w : NetWorker) (id : ℕ) (endpoint : Endpoint) (timeoutMs : ℤ)
    (sys : CreateSys) :
    ∃ v, id ∈ v.connections ∧ Moves [] w v ∧
      Moves [] v (w.handleCreateTcp id endpoint timeoutMs sys) :=
  (handleCreateTcp_creates w id endpoint timeoutMs sys).entered rfl rfl fun _ =>
    moves_connectTcp _ _ _ _ (lookup_setConnection _ _ _) rfl rfl

theorem moves_handleCreateTcp (w : NetWorker) (id : ℕ) (endpoint : Endpoint) (timeoutMs : ℤ)
    (sys : CreateSys) : Moves [] w (w.handleCreateTcp id endpoint timeoutMs sys) := by
  obtain ⟨v, -, henter, hrest⟩ := entered_handleCreateTcp w id endpoint timeoutMs sys
  exact henter.then hrest

theorem moves_connectUdp (w : NetWorker) (id fd : ℕ) {old conn : Connection} (sys : CreateSys)
    (hold : w.connections.lookup id = some old) (hid : conn.id = old.id)
    (hp : conn.pendingSend = old.pendingSend) :
    Moves [] w (w.connectUdp id fd conn sys) := by
  have hset : Moves [] w (w.setConnection id conn) := .alter hold hid hp
  unfold connectUdp
  dsimp only
  by_cases hconn : sys.connect ≠ .connected
  · rw [if_pos hconn]
    exact (hset.then (.frame (sameBooks_closeFd _ fd))).then (moves_removeConnection _ _ _)
  · rw [if_neg hconn]
    by_cases hadd : sys.epollAdd = false
    · rw [if_pos hadd]
      exact (hset.then (.frame (sameBooks_closeFd _ fd))).then (moves_removeConnection _ _ _)
    · rw [if_neg hadd]
      exact hset.then (.frame (sameBooks_registerFd _ _ _ _))

theorem entered_handleCreateUdp (w : NetWorker) (id : ℕ) (endpoint : Endpoint) (sys : CreateSys) :
    ∃ v, id ∈ v.connections ∧ Moves [] w v ∧ Moves [] v (w.handleCreateUdp id endpoint sys) :=
  (handleCreateUdp_creates w id endpoint sys).entered rfl rfl fun _ =>
    moves_connectUdp _ _ _ _ (lookup_setConnection _ _ _) rfl rfl

theorem moves_handleCreateUdp (w : NetWorker) (id : ℕ) (endpoint : Endpoint) (sys : CreateSys) :
    Moves [] w (w.handleCreateUdp id endpoint sys) := by
  obtain ⟨v, -, henter, hrest⟩ := entered_handleCreateUdp w id endpoint sys
  exact henter.then hrest

theorem moves_handleSend (w : NetWorker) (id : ℕ) (payload : Bytes) :
    Moves [payload] w (w.handleSend id payload) := by
  unfold handleSend
  cases hl : w.connections.lookup id with
  | none => exact Moves.trans (.frame (sameBooks_pushEvent _ _)) (.discard payload)
  | some conn =>
    dsimp only
    split_ifs with hstate
    · exact .discard payload
    · exact (Moves.queue payload hl).then (.frame (sameBooks_modFd _ _ _))

theorem moves_handleCommand (create : ℕ → CreateSys) (w : NetWorker) (cmd : Command) :
    Moves cmd.payloads w (w.handleCommand create cmd) := by
  cases cmd with
  | createTcp id endpoint timeoutMs => exact moves_handleCreateTcp _ _ _ _ _
  | createUdp id endpoint => exact moves_handleCreateUdp _ _ _ _
  | send id payload => exact moves_handleSend _ _ _
  | close id => exact moves_removeConnection _ _ _

theorem moves_foldl_handleCommand (create : ℕ → CreateSys) (cmds : List Command) (w : NetWorker) :
    Moves (cmds.flatMap Command.payloads) w (cmds.foldl (handleCommand create) w) := by
  induction cmds generalizing w with
  | nil => exact .refl
  | cons cmd cmds ih => exact (moves_handleCommand create w cmd).trans (ih _)

theorem moves_flushWrite (w : NetWorker) (id : ℕ) (sends : List SendResult) :
    Moves [] w (w.flushWrite id sends) := by
  unfold flushWrite
  cases hl : w.connections.lookup id with
  | none => exact .refl
  | some conn =>
    have hflush := Moves.flush sends hl
    dsimp only
    by_cases hfail : (flushLoop sends { pending := conn.pendingSend }).failed = true
    · rw [if_pos hfail]
      exact hflush.then (moves_removeConnection _ _ _)
    · rw [if_neg hfail]
      exact hflush.then (.frame (sameBooks_modFd _ _ _))

theorem moves_drainRead (id : ℕ) (results : List RecvResult) (w : NetWorker) :
    Moves [] w (w.drainRead id results) := by
  induction results generalizing w with
  | nil => exact .refl
  | cons result results ih =>
    cases result with
    | wouldBlock => exact .refl
    | failed => exact moves_removeConnection _ _ _
    | data bytes =>
      cases bytes with
      | nil => exact moves_removeConnection _ _ _
      | cons b bytes =>
        show Moves [] w (drainRead id results (w.received id (b :: bytes)))
        exact (Moves.frame (sameBooks_received _ _ _)).then (ih _)

theorem moves_completeTcpConnect (w : NetWorker) (id : ℕ) (socketError : SocketError) :
    Moves [] w (w.completeTcpConnect id socketError) := by
  unfold completeTcpConnect
  cases hl : w.connections.lookup id with
  | none => exact .refl
  | some conn =>
    dsimp only
    by_cases hstate : conn.type ≠ .tcp ∨ conn.state ≠ .connecting
    · rw [if_pos hstate]
      exact .refl
    · rw [if_neg hstate]
      cases socketError with
      | none =>
        have halter : Moves [] w (w.setConnection id { conn with state := .connected }) :=
          .alter hl rfl rfl
        exact halter.then (.frame (sameBooks_modFd _ _ _))
      | reported => exact moves_removeConnection _ _ _
      | unavailable => exact moves_removeConnection _ _ _

theorem moves_completeIfConnecting (w : NetWorker) (conn : Connection)
    (socketError : SocketError) : Moves [] w (w.completeIfConnecting conn socketError) := by
  unfold completeIfConnecting
  split
  · exact moves_completeTcpConnect _ _ _
  · exact .refl

theorem moves_dispatchOut (w : NetWorker) (key : ℕ) (conn : Connection) (ev : ReadyEvent) :
    Moves [] w (w.dispatchOut key conn ev) := by
  have hcomplete := moves_completeIfConnecting w conn ev.socketError
  unfold dispatchOut
  dsimp only
  split
  · split
    · exact hcomplete
    · exact hcomplete.then (moves_flushWrite _ _ _)
  · exact .refl

theorem moves_dispatch (w : NetWorker) (ev : ReadyEvent) : Moves [] w (w.dispatch ev) := by
  unfold dispatch
  cases w.fdToConn.lookup ev.fd with
  | none => exact .refl
  | some key =>
    dsimp only
    cases w.connections.lookup key with
    | none => exact .refl
    | some conn =>
      have hout := moves_dispatchOut w key conn ev
      dsimp only
      split
      · exact moves_removeConnection _ _ _
      · split
        · exact hout
        · split
          · exact hout.then (moves_drainRead _ _ _)
          · exact hout

theorem moves_checkConnectTimeouts (w : NetWorker) (nowNs : ℤ) (order : List ℕ) :
    Moves [] w (w.checkConnectTimeouts nowNs order) := by
  unfold checkConnectTimeouts
  generalize List.filterMap _ _ = ids
  induction ids generalizing w with
  | nil => exact .refl
  | cons id ids ih => exact (moves_removeConnection w id .timeout).then (ih _)

end NetWorker

end TitanBench
