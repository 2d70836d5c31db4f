import TitanBench.NetworkSteps

/-!
# What the worker does with descriptors and events

The handlers of a poll once more, with every descriptor that is stored or closed and every event
that is emitted.

* `Deeds S fds w w'` — what the worker does to the connections in `S`; `fds` are the descriptors
  that enter the table or are closed without being in it.
* `Carries` — what the execution of one command does; `handleCommand_carries`.
* `deeds_dispatch`, `deeds_checkConnectTimeouts` — the other parts of a poll.
-/

namespace TitanBench

namespace NetWorker

/-- The two workers agree on the connections, on the descriptors of the worker's own and on the
logs of what was closed, emitted and received. -/
structure Quiet (w w' : NetWorker) : Prop where
  epollFd : w'.epollFd = w.epollFd
  wakeFd : w'.wakeFd = w.wakeFd
  connections : w'.connections = w.connections
  recvEvents : w'.recvEvents = w.recvEvents
  bytesReceived : w'.bytesReceived = w.bytesReceived
  closed : w'.closed = w.closed

theorem Quiet.refl (w : NetWorker) : Quiet w w := ⟨rfl, rfl, rfl, rfl, rfl, rfl⟩

theorem quiet_modFd (w : NetWorker) (fd : Option ℕ) (mask : EpollMask) :
    Quiet w (w.modFd fd mask) := by
  cases fd <;> exact ⟨rfl, rfl, rfl, rfl, rfl, rfl⟩

theorem quiet_registerFd (w : NetWorker) (id fd : ℕ) (mask : EpollMask) :
    Quiet w (w.registerFd id fd mask) := ⟨rfl, rfl, rfl, rfl, rfl, rfl⟩

/-- Sequences of what is done to connections in the table, all of them in `S`. -/
inductive Deeds (S : Set ℕ) : List ℕ → NetWorker → NetWorker → Prop
  | quiet {w w' : NetWorker} : Quiet w w' → Deeds S [] w w'
  | alter {w : NetWorker} {id : ℕ} {conn conn' : Connection} :
      id ∈ S → w.connections.lookup id = some conn → conn'.id = conn.id → conn'.fd = conn.fd →
      Deeds S [] w (w.setConnection id conn')
  | store {w : NetWorker} {id : ℕ} {conn conn' : Connection} (fd : ℕ) :
      id ∈ S → w.connections.lookup id = some conn → conn'.id = conn.id → conn.fd = none →
      conn'.fd = some fd → Deeds S [fd] w (w.setConnection id conn')
  | close {w : NetWorker} (fd : ℕ) : Deeds S [fd] w (w.closeFd fd)
  | data {w : NetWorker} {id : ℕ} {bytes : Bytes} :
      id ∈ S → id ∈ w.connections → bytes ≠ [] → Deeds S [] w (w.received id bytes)
  | remove {w : NetWorker} {id : ℕ} {conn : Connection} {err : NetErrc} :
      id ∈ S → w.connections.lookup id = some conn → err ≠ .ok → err ≠ .connectionNotFound →
      Deeds S [] w (w.removeConnection id err)
  | trans {fds fds' : List ℕ} {w w' w'' : NetWorker} :
      Deeds S fds w w' → Deeds S fds' w' w'' → Deeds S (fds ++ fds') w w''

variable {S : Set ℕ}

theorem Deeds.refl (w : NetWorker) : Deeds S [] w w := .quiet (.refl w)

theorem Deeds.then {fds : List ℕ} {w w' w'' : NetWorker} (h : Deeds S fds w w')
    (h' : Deeds S [] w' w'') : Deeds S fds w w'' := by
  have hboth := h.trans h'
  rwa [List.append_nil] at hboth

theorem deeds_removeConnection (w : NetWorker) {id : ℕ} (hid : id ∈ S) {err : NetErrc}
    (herr : err ≠ .ok) (hfound : err ≠ .connectionNotFound) :
    Deeds S [] w (w.removeConnection id err) := by
  cases hl : w.connections.lookup id with
  | none =>
    have hsame : w.removeConnection id err = w := by simp [removeConnection, hl]
    rw [hsame]
    exact .refl w
  | some conn => exact .remove hid hl herr hfound

/-- `RemoveConnection` with `kIoFailed`. -/
theorem deeds_ioFailed (w : NetWorker) {id : ℕ} (hid : id ∈ S) :
    Deeds S [] w (w.removeConnection id .ioFailed) :=
  deeds_removeConnection w hid (by decide) (by decide)

/-! ## The events of a poll -/

theorem deeds_flushWrite (w : NetWorker) {id : ℕ} (hid : id ∈ S) (sends : List SendResult) :
    Deeds S [] w (w.flushWrite id sends) := by
  unfold flushWrite
  cases hl : w.connections.lookup id with
  | none => exact .refl w
  | some conn =>
    dsimp only
    generalize flushLoop sends { pending := conn.pendingSend } = st
    have halter : Deeds S [] w (w.setConnection id { conn with pendingSend := st.pending }) :=
      .alter hid hl rfl rfl
    have hflush : Deeds S [] w (w.flushed id conn st) :=
      halter.then (.quiet ⟨rfl, rfl, rfl, rfl, rfl, rfl⟩)
    by_cases hfail : st.failed = true
    · rw [if_pos hfail]
      exact hflush.then (deeds_ioFailed _ hid)
    · rw [if_neg hfail]
      exact hflush.then (.quiet (quiet_modFd _ _ _))

theorem deeds_drainRead {id : ℕ} (hid : id ∈ S) (results : List RecvResult) (w : NetWorker)
    (hmem : id ∈ w.connections) : Deeds S [] w (w.drainRead id results) := by
  induction results generalizing w with
  | nil => exact .refl w
  | cons result results ih =>
    cases result with
    | wouldBlock => exact .refl w
    | failed => exact deeds_ioFailed w hid
    | data bytes =>
      cases bytes with
      | nil => exact deeds_ioFailed w hid
      | cons b bytes =>
        have hdata : Deeds S [] w (w.received id (b :: bytes)) :=
          .data hid hmem (List.cons_ne_nil _ _)
        exact hdata.then (ih _ hmem)

theorem deeds_completeIfConnecting (w : NetWorker) {conn : Connection} (hid : conn.id ∈ S)
    (socketError : SocketError) : Deeds S [] w (w.completeIfConnecting conn socketError) := by
  unfold completeIfConnecting
  split
  · unfold completeTcpConnect
    cases hl : w.connections.lookup conn.id with
    | none => exact .refl w
    | some old =>
      dsimp only
      by_cases hstate : old.type ≠ .tcp ∨ old.state ≠ .connecting
      · rw [if_pos hstate]
        exact .refl w
      · rw [if_neg hstate]
        cases socketError with
        | none =>
          have halter : Deeds S [] w (w.setConnection conn.id { old with state := .connected }) :=
            .alter hid hl rfl rfl
          exact halter.then (.quiet (quiet_modFd _ _ _))
        | reported => exact deeds_ioFailed w hid
        | unavailable => exact deeds_ioFailed w hid
  · exact .refl w

theorem deeds_dispatchOut (w : NetWorker) (key : ℕ) {conn : Connection} (hid : conn.id ∈ S)
    (ev : ReadyEvent) : Deeds S [] w (w.dispatchOut key conn ev) := by
  have hcomplete := deeds_completeIfConnecting w hid ev.socketError
  unfold dispatchOut
  dsimp only
  split
  · split
    · exact hcomplete
    · exact hcomplete.then (deeds_flushWrite _ hid _)
  · exact .refl w

/-- The connection that an event for the descriptor is handled for. -/
def handledFor (fd : ℕ) (w : NetWorker) : Option ℕ :=
  (w.fdToConn.lookup fd).filter fun key => key ∈ w.connections

/-- The dispatch touches no other connection. -/
theorem deeds_dispatch (w : NetWorker) (ev : ReadyEvent) (hkeyed : w.WellKeyed) :
    Deeds {id | w.handledFor ev.fd = some id} [] w (w.dispatch ev) := by
  unfold dispatch handledFor
  cases w.fdToConn.lookup ev.fd with
  | none => exact .refl w
  | some key =>
    dsimp only
    cases hl : w.connections.lookup key with
    | none => exact .refl w
    | some conn =>
      have hkey : conn.id = key := hkeyed key conn hl
      have hid : conn.id ∈ {id | (some key).filter (fun key => key ∈ w.connections) = some id} := by
        show (some key).filter _ = some conn.id
        rw [hkey, Option.filter_some, if_pos (by simpa using mem_of_lookup hl)]
      generalize {id | (some key).filter (fun key => key ∈ w.connections) = some id} = S at hid
      have hout := deeds_dispatchOut w key hid ev
      dsimp only
      split
      · exact deeds_ioFailed w hid
      · split
        · exact hout
        · rename_i hmem
          have hin : conn.id ∈ (w.dispatchOut key conn ev).connections := by
            rw [hkey]
            exact not_not.mp hmem
          split
          · exact hout.then (deeds_drainRead hid _ _ hin)
          · exact hout

theorem deeds_checkConnectTimeouts (w : NetWorker) (nowNs : ℤ) (order : List ℕ) :
    Deeds Set.univ [] w (w.checkConnectTimeouts nowNs order) := by
  unfold checkConnectTimeouts
  generalize List.filterMap _ _ = ids
  induction ids generalizing w with
  | nil => exact .refl w
  | cons id ids ih =>
    have hremove : Deeds Set.univ [] w (w.removeConnection id .timeout) :=
      deeds_removeConnection w (Set.mem_univ id) (by decide) (by decide)
    exact hremove.then (ih _)

/-! ## The commands -/

/-- The descriptor `socket` returns while the command is executed, if it is asked. -/
def socketOf (create : ℕ → CreateSys) (w : NetWorker) : Command → Option ℕ
  | .createTcp id endpoint _ | .createUdp id endpoint =>
    if id ∈ w.connections ∨ buildSockAddr endpoint (create id).resolved = false then none
    else (create id).socketFd
  | _ => none

/-- A call fails on a descriptor that the connection has got already, and the handler closes it:
`epoll_ctl`, and `connect` for a datagram socket. -/
def failsStored (create : ℕ → CreateSys) : Command → Bool
  | .createTcp id _ _ => (create id).nonBlocking && !(create id).epollAdd
  | .createUdp id _ =>
    (create id).nonBlocking && ((create id).connect ≠ .connected || !(create id).epollAdd)
  | _ => false

/-- The descriptor the handler closes although the connection keeps it. -/
def closedEarly (create : ℕ → CreateSys) (w : NetWorker) (cmd : Command) : Option ℕ :=
  if failsStored create cmd then socketOf create w cmd else none

/-- Everything the execution of a command can do. -/
inductive Carries (create : ℕ → CreateSys) (w : NetWorker) : Command → NetWorker → Prop
  | entered {cmd : Command} {id : ℕ} {conn : Connection} {w' : NetWorker} :
      cmd.opens = some id → id ∉ w.connections → conn.id = id → conn.fd = none →
      Deeds {id} ((socketOf create w cmd).toList ++ (closedEarly create w cmd).toList)
        (w.setConnection id conn) w' → Carries create w cmd w'
  | collided {cmd : Command} {id : ℕ} :
      cmd.opens = some id → id ∈ w.connections → socketOf create w cmd = none →
      Carries create w cmd (w.removeConnection id .ioFailed)
  | sent {id : ℕ} {payload : Bytes} {w' : NetWorker} :
      id ∈ w.connections → Deeds {id} [] w w' → Carries create w (.send id payload) w'
  | missed {id : ℕ} {payload : Bytes} {w' : NetWorker} :
      id ∉ w.connections → Quiet (w.pushEvent (failure id .connectionNotFound)) w' →
      Carries create w (.send id payload) w'
  | closed (id : ℕ) : Carries create w (.close id) (w.removeConnection id .ok)

section Create

variable {w : NetWorker} {id fd : ℕ} {old conn : Connection}

theorem deeds_connectTcp (hS : id ∈ S) (hold : w.connections.lookup id = some old)
    (hnone : old.fd = none) (hid : conn.id = old.id) (hfd : conn.fd = some fd) (sys : CreateSys) :
    Deeds S (fd :: if sys.epollAdd = false then [fd] else []) w (w.connectTcp id fd conn sys) := by
  have hset : Deeds S [fd] w (w.setConnection id conn) := .store fd hS hold hid hnone hfd
  unfold connectTcp
  dsimp only
  by_cases hadd : sys.epollAdd = false
  · rw [if_pos hadd, if_pos hadd]
    have hclose := hset.trans (.close fd)
    exact hclose.then (deeds_removeConnection _ hS (by decide) (by decide))
  · rw [if_neg hadd, if_neg hadd]
    have hreg := hset.then (.quiet (quiet_registerFd _ id fd readWriteMask))
    cases sys.connect with
    | connected =>
      have halter : Deeds S [fd] w (((w.setConnection id conn).registerFd id fd
          readWriteMask).setConnection id { conn with state := .connected }) :=
        hreg.then (.alter hS (lookup_setConnection w id conn) rfl rfl)
      exact halter.then (.quiet (quiet_modFd _ _ _))
    | inProgress => exact hreg
    | failed => exact hreg.then (deeds_removeConnection _ hS (by decide) (by decide))

theorem deeds_connectUdp (hS : id ∈ S) (hold : w.connections.lookup id = some old)
    (hnone : old.fd = none) (hid : conn.id = old.id) (hfd : conn.fd = some fd) (sys : CreateSys) :
    Deeds S (fd :: if sys.connect ≠ .connected ∨ sys.epollAdd = false then [fd] else []) w
      (w.connectUdp id fd conn sys) := by
  have hset : Deeds S [fd] w (w.setConnection id conn) := .store fd hS hold hid hnone hfd
  have hclose := hset.trans (.close fd)
  unfold connectUdp
  dsimp only
  by_cases hconnect : sys.connect ≠ .connected
  · rw [if_pos hconnect, if_pos (.inl hconnect)]
    exact hclose.then (deeds_removeConnection _ hS (by decide) (by decide))
  · rw [if_neg hconnect]
    by_cases hadd : sys.epollAdd = false
    · rw [if_pos hadd, if_pos (.inr hadd)]
      exact hclose.then (deeds_removeConnection _ hS (by decide) (by decide))
    · rw [if_neg hadd, if_neg (not_or.mpr ⟨hconnect, hadd⟩)]
      exact hset.then (.quiet (quiet_registerFd _ id fd readMask))

/-- The command opens a connection with the id, and asks for a descriptor if it can. -/
theorem Creates.carries {create : ℕ → CreateSys} {cmd : Command} {w' : NetWorker}
    {endpoint : Endpoint} {connect : ℕ → NetWorker → NetWorker}
    (h : Creates w id endpoint (create id) conn connect w') (hopens : cmd.opens = some id)
    (hsocket : socketOf create w cmd =
      if id ∈ w.connections ∨ buildSockAddr endpoint (create id).resolved = false then none
      else (create id).socketFd)
    (hid : conn.id = id) (hnone : conn.fd = none)
    (hblocks : (create id).nonBlocking = false → failsStored create cmd = false)
    (hconnect : ∀ fd, (create id).nonBlocking ≠ false →
      Deeds {id} (fd :: if failsStored create cmd then [fd] else []) (w.setConnection id conn)
        (connect fd (w.setConnection id conn))) :
    Carries create w cmd w' := by
  have hself : id ∈ ({id} : Set ℕ) := rfl
  cases h with
  | collided hmem => exact .collided hopens hmem (by simp [hsocket, hmem])
  | noSocket hnew herr hfound hwhy =>
    have hnoSocket : socketOf create w cmd = none := by
      rw [hsocket]
      rcases hwhy with hres | hfd
      · rw [if_pos (.inr hres)]
      · rw [hfd, ite_self]
    refine .entered hopens hnew hid hnone ?_
    rw [closedEarly, hnoSocket, ite_self]
    exact deeds_removeConnection _ hself herr hfound
  | @blocks fd hnew hres hfd hblock =>
    have hgot : socketOf create w cmd = some fd := by
      rw [hsocket, if_neg (not_or.mpr ⟨hnew, hres⟩), hfd]
    refine .entered hopens hnew hid hnone ?_
    rw [closedEarly, hblocks hblock, hgot]
    exact (Deeds.close fd).then (deeds_removeConnection _ hself (by decide) (by decide))
  | @connects fd hnew hres hfd hblock =>
    have hgot : socketOf create w cmd = some fd := by
      rw [hsocket, if_neg (not_or.mpr ⟨hnew, hres⟩), hfd]
    refine .entered hopens hnew hid hnone ?_
    have hdeeds := hconnect fd hblock
    rw [closedEarly, hgot]
    cases hfails : failsStored create cmd <;> simpa [hfails] using hdeeds

theorem handleCreateTcp_carries (create : ℕ → CreateSys) (w : NetWorker) (id : ℕ)
    (endpoint : Endpoint) (timeoutMs : ℤ) :
    Carries create w (.createTcp id endpoint timeoutMs)
      (w.handleCreateTcp id endpoint timeoutMs (create id)) := by
  refine (handleCreateTcp_creates w id endpoint timeoutMs (create id)).carries rfl rfl rfl rfl
    (fun hblock => by simp [failsStored, hblock]) fun fd hblock => ?_
  have hdeeds := @deeds_connectTcp {id} _ id fd _
    { initialTcp id timeoutMs (create id).beginNs with
      fd := some fd, state := .connecting, connectBeginNs := (create id).laterNs }
    rfl (lookup_setConnection w id (initialTcp id timeoutMs (create id).beginNs)) rfl rfl rfl
    (create id)
  simpa [failsStored, hblock] using hdeeds

theorem handleCreateUdp_carries (create : ℕ → CreateSys) (w : NetWorker) (id : ℕ)
    (endpoint : Endpoint) :
    Carries create w (.createUdp id endpoint) (w.handleCreateUdp id endpoint (create id)) := by
  refine (handleCreateUdp_creates w id endpoint (create id)).carries rfl rfl rfl rfl
    (fun hblock => by simp [failsStored, hblock]) fun fd hblock => ?_
  have hdeeds := @deeds_connectUdp {id} _ id fd _
    { initialUdp id with fd := some fd, state := .connected }
    rfl (lookup_setConnection w id (initialUdp id)) rfl rfl rfl (create id)
  simpa [failsStored, hblock] using hdeeds

end Create

theorem handleSend_carries (create : ℕ → CreateSys) (w : NetWorker) (id : ℕ) (payload : Bytes) :
    Carries create w (.send id payload) (w.handleSend id payload) := by
  unfold handleSend
  cases hl : w.connections.lookup id with
  | none => exact .missed (AList.lookup_eq_none.mp hl) ⟨rfl, rfl, rfl, rfl, rfl, rfl⟩
  | some conn =>
    dsimp only
    split_ifs with hstate
    · exact .sent (mem_of_lookup hl) (.quiet ⟨rfl, rfl, rfl, rfl, rfl, rfl⟩)
    · refine .sent (mem_of_lookup hl)
        (Deeds.then (.alter rfl hl ?_ ?_) (.quiet (quiet_modFd _ _ _)))
      · rfl
      · rfl

/-- Every case of the handlers. -/
theorem handleCommand_carries (create : ℕ → CreateSys) (w : NetWorker) (cmd : Command) :
    Carries create w cmd (w.handleCommand create cmd) := by
  cases cmd with
  | createTcp id endpoint timeoutMs => exact handleCreateTcp_carries create w id endpoint timeoutMs
  | createUdp id endpoint => exact handleCreateUdp_carries create w id endpoint
  | send id payload => exact handleSend_carries create w id payload
  | close id => exact .closed id

/-- The descriptor `socket` returns in the step, if it is asked. -/
def Polling.socketFd (p : Polling) : Step → Option ℕ
  | .execute create => p.taken.head?.bind (socketOf create p.net)
  | _ => none

end NetWorker

end TitanBench
