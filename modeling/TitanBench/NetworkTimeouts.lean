import TitanBench.NetworkHandled
import TitanBench.NetworkProtocol

/-!
# Connect timeouts

`CheckConnectTimeouts` compares the clock with the reading that was stored when the connect was
begun. Nothing else reports a timeout, and nothing that happens to a connection changes the reading.

* `Connection.SameClock` — the deadline of a connection stays; `Polling.step_clock`.
* `Untimed` — the rest of the worker reports other errors; `Polling.step_untimed`.
* `checkConnectTimeouts_spec` — what one check does.
* `timeouts_exact` — the main result: a check reports exactly the connections that are overdue, and
  nothing else reports a timeout.
-/

namespace TitanBench

/-- The two connections have the same connect deadline. -/
structure Connection.SameClock (conn' conn : Connection) : Prop where
  type : conn'.type = conn.type
  connectTimeoutMs : conn'.connectTimeoutMs = conn.connectTimeoutMs
  connectBeginNs : conn'.connectBeginNs = conn.connectBeginNs

namespace NetWorker

/-! ## Deadlines -/

section Clock

variable {create : ℕ → CreateSys} {w w' : NetWorker} {cmd : Command} {id k : ℕ} {conn : Connection}

/-- The connections in `w'` have been in `w` with the same deadline. -/
def KeepsClock (w w' : NetWorker) : Prop :=
  ∀ id conn', w'.connections.lookup id = some conn' →
    ∃ conn, w.connections.lookup id = some conn ∧ conn'.SameClock conn

theorem Thins.keepsClock (h : Thins w w') : KeepsClock w w' :=
  fun id conn' hl => ⟨conn', h.lookup id conn' hl, rfl, rfl, rfl⟩

theorem KeepsClock.trans {w'' : NetWorker} (h : KeepsClock w w') (h' : KeepsClock w' w'') :
    KeepsClock w w'' := by
  intro id conn'' hl
  obtain ⟨conn', hl', hsame'⟩ := h' id conn'' hl
  obtain ⟨conn, hl, hsame⟩ := h id conn' hl'
  exact ⟨conn, hl, hsame'.type.trans hsame.type,
    hsame'.connectTimeoutMs.trans hsame.connectTimeoutMs,
    hsame'.connectBeginNs.trans hsame.connectBeginNs⟩

theorem keepsClock_setConnection {conn' : Connection} (hl : w.connections.lookup id = some conn)
    (hsame : conn'.SameClock conn) : KeepsClock w (w.setConnection id conn') := by
  intro k new hk
  by_cases hid : k = id
  · subst hid
    rw [lookup_setConnection] at hk
    cases hk
    exact ⟨conn, hl, hsame⟩
  · exact ⟨new, (AList.lookup_insert_ne hid).symm.trans hk, rfl, rfl, rfl⟩

theorem Completed.keepsClock {conn' : Connection} (hl : w.connections.lookup id = some conn)
    (h : Completed id w conn w' conn') : KeepsClock w w' ∧ conn'.SameClock conn := by
  cases h with
  | settled => exact ⟨fun _ new hk => ⟨new, hk, rfl, rfl, rfl⟩, rfl, rfl, rfl⟩
  | connected =>
    have hset := @keepsClock_setConnection w id conn { conn with state := .connected } hl
      ⟨rfl, rfl, rfl⟩
    exact ⟨hset.trans (thins_modFd _ _ _).keepsClock, rfl, rfl, rfl⟩

theorem Dispatched.keepsClock {ev : ReadyEvent} {target : Option (NetWorker × Connection)}
    (h : Dispatched ev w target w') : KeepsClock w w' := by
  have hflush : ∀ {id : ℕ} {conn conn' : Connection} {v : NetWorker} (st : Flush),
      w.connections.lookup id = some conn → Completed id w conn v conn' →
      KeepsClock w (v.flushed id conn' st) := by
    intro id conn conn' v st hl hdone
    obtain ⟨hkeeps, hsame⟩ := hdone.keepsClock hl
    intro k new hk
    by_cases hid : k = id
    · subst hid
      rw [flushed_lookup] at hk
      cases hk
      exact ⟨conn, hl, hsame.type, hsame.connectTimeoutMs, hsame.connectBeginNs⟩
    · exact hkeeps k new ((AList.lookup_insert_ne hid).symm.trans hk)
  cases h with
  | unknown => exact fun _ new hk => ⟨new, hk, rfl, rfl, rfl⟩
  | removed _ _ => exact (fades_removeConnection _ _ _).toThins.keepsClock
  | reads recvs _ _ => exact (fades_drainRead _ _ _).toThins.keepsClock
  | fails hl _ hdone _ =>
    exact (hflush _ hl hdone).trans (fades_removeConnection _ _ _).toThins.keepsClock
  | flushes recvs hl _ hdone _ =>
    exact (hflush _ hl hdone).trans
      ((thins_modFd _ _ _).trans (fades_drainRead _ _ _).toThins).keepsClock

/-- A connection that is entered and given up again. -/
theorem keepsClock_undo (hnew : id ∉ w.connections) {v : NetWorker} {conn : Connection}
    (hconn : v.connections = w.connections.insert id conn) (err : NetErrc) :
    KeepsClock w (v.removeConnection id err) := by
  intro k new hk
  rw [removeConnection_connections, hconn, Table.erase_insert hnew] at hk
  exact ⟨new, hk, rfl, rfl, rfl⟩

/-- A connection in `w'` has been in `w` with the same deadline, or it is a new one under `id`. -/
def EntersClock (id : ℕ) (New : Connection → Prop) (w w' : NetWorker) : Prop :=
  ∀ k conn', w'.connections.lookup k = some conn' →
    (∃ conn, w.connections.lookup k = some conn ∧ conn'.SameClock conn) ∨ k = id ∧ New conn'

variable {New : Connection → Prop}

theorem KeepsClock.enters (h : KeepsClock w w') : EntersClock id New w w' :=
  fun k conn' hl => .inl (h k conn' hl)

theorem entersClock_insert (hconn : w'.connections = w.connections.insert id conn)
    (hclock : New conn) : EntersClock id New w w' := by
  intro k new hk
  rw [hconn] at hk
  by_cases hid : k = id
  · subst hid
    rw [AList.lookup_insert] at hk
    cases hk
    exact .inr ⟨rfl, hclock⟩
  · rw [AList.lookup_insert_ne hid] at hk
    exact .inl ⟨new, hk, rfl, rfl, rfl⟩

theorem Creates.entersClock {endpoint : Endpoint} {sys : CreateSys}
    {connect : ℕ → NetWorker → NetWorker} (h : Creates w id endpoint sys conn connect w')
    (hconnect : ∀ fd, id ∉ w.connections →
      EntersClock id New w (connect fd (w.setConnection id conn))) :
    EntersClock id New w w' := by
  cases h with
  | collided _ => exact (fades_removeConnection _ _ _).toThins.keepsClock.enters
  | noSocket hnew => exact (keepsClock_undo hnew rfl _).enters
  | blocks hnew => exact (keepsClock_undo hnew rfl _).enters
  | connects hnew => exact hconnect _ hnew

theorem entersClock_connectTcp {init : Connection} (hnew : id ∉ w.connections) (fd : ℕ)
    (sys : CreateSys) (hclock : ∀ state, New { conn with state := state }) :
    EntersClock id New w ((w.setConnection id init).connectTcp id fd conn sys) := by
  unfold connectTcp
  dsimp only
  rw [setConnection_twice]
  split_ifs
  · exact (keepsClock_undo hnew rfl _).enters
  · cases sys.connect with
    | connected =>
      refine entersClock_insert ?_ (hclock .connected)
      rw [modFd_connections]
      exact AList.insert_insert ..
    | inProgress => exact entersClock_insert rfl (hclock conn.state)
    | failed => exact (keepsClock_undo hnew rfl _).enters

theorem entersClock_connectUdp {init : Connection} (hnew : id ∉ w.connections) (fd : ℕ)
    (sys : CreateSys) (hclock : New conn) :
    EntersClock id New w ((w.setConnection id init).connectUdp id fd conn sys) := by
  unfold connectUdp
  dsimp only
  rw [setConnection_twice]
  split_ifs
  · exact (keepsClock_undo hnew rfl _).enters
  · exact (keepsClock_undo hnew rfl _).enters
  · exact entersClock_insert rfl hclock

theorem handleSend_keepsClock (w : NetWorker) (id : ℕ) (payload : Bytes) :
    KeepsClock w (w.handleSend id payload) := by
  unfold handleSend
  cases hl : w.connections.lookup id with
  | none => exact fun _ new hk => ⟨new, hk, rfl, rfl, rfl⟩
  | some conn =>
    dsimp only
    split_ifs
    · exact fun _ new hk => ⟨new, hk, rfl, rfl, rfl⟩
    · have hset := @keepsClock_setConnection w id conn
        { conn with pendingSend := conn.pendingSend ++ [{ data := payload }] } hl ⟨rfl, rfl, rfl⟩
      exact hset.trans (thins_modFd _ _ _).keepsClock

/-- What a command makes of the deadlines: a new connection is that of a `Create`, and one for tcp
has the timeout of the command and the clock as the handler read it last. -/
theorem handleCommand_clock (create : ℕ → CreateSys) (w : NetWorker) (cmd : Command)
    {conn' : Connection}
    (hl : (w.handleCommand create cmd).connections.lookup id = some conn') :
    (∃ conn, w.connections.lookup id = some conn ∧ conn'.SameClock conn) ∨ conn'.type = .udp ∨
      ∃ endpoint, cmd = .createTcp id endpoint conn'.connectTimeoutMs ∧
        conn'.connectBeginNs = (create id).laterNs := by
  cases cmd with
  | createTcp k endpoint timeoutMs =>
    have henters := @Creates.entersClock _ _ _ _ (fun conn =>
        conn.connectTimeoutMs = timeoutMs ∧ conn.connectBeginNs = (create k).laterNs) _ _ _
      (handleCreateTcp_creates w k endpoint timeoutMs (create k))
      fun fd hnew => entersClock_connectTcp hnew fd (create k) fun _ => ⟨rfl, rfl⟩
    refine (henters id conn' hl).imp_right ?_
    rintro ⟨rfl, htimeout, hbegin⟩
    exact .inr ⟨endpoint, by rw [htimeout], hbegin⟩
  | createUdp k endpoint =>
    have henters := @Creates.entersClock _ _ _ _ (fun conn => conn.type = .udp) _ _ _
      (handleCreateUdp_creates w k endpoint (create k))
      fun fd hnew => entersClock_connectUdp hnew fd (create k) rfl
    exact (henters id conn' hl).imp_right fun h => .inl h.2
  | send k payload => exact .inl (handleSend_keepsClock w k payload id conn' hl)
  | close k => exact .inl ((fades_removeConnection w k _).toThins.keepsClock id conn' hl)

end Clock

/-! ## Errors -/

section Errors

variable {w w' : NetWorker} {id : ℕ}

/-- No timeout is reported on the way from `w` to `w'`. -/
def Untimed (w w' : NetWorker) : Prop :=
  ∃ events, w'.recvEvents = w.recvEvents ++ events ∧ ∀ ev ∈ events, ev.error ≠ .timeout

theorem untimed_same (h : w'.recvEvents = w.recvEvents) : Untimed w w' :=
  ⟨[], by rw [h, List.append_nil], fun _ hev => absurd hev List.not_mem_nil⟩

theorem Untimed.trans {w'' : NetWorker} (h : Untimed w w') (h' : Untimed w' w'') :
    Untimed w w'' := by
  obtain ⟨events, hlog, hnone⟩ := h
  obtain ⟨events', hlog', hnone'⟩ := h'
  exact ⟨events ++ events', by rw [hlog', hlog, List.append_assoc],
    List.forall_mem_append.mpr ⟨hnone, hnone'⟩⟩

theorem untimed_pushEvent (w : NetWorker) {ev : RecvEvent} (hev : ev.error ≠ .timeout) :
    Untimed w (w.pushEvent ev) :=
  ⟨[ev], rfl, by simpa using hev⟩

theorem removeConnection_recvEvents (w : NetWorker) (id : ℕ) (err : NetErrc) :
    ∃ events, (w.removeConnection id err).recvEvents = w.recvEvents ++ events ∧
      ∀ ev ∈ events, ev.error = err := by
  unfold removeConnection
  cases hl : w.connections.lookup id with
  | none => exact ⟨[], by simp, by simp⟩
  | some conn =>
    have hrelease : (w.releaseFd conn.fd).recvEvents = w.recvEvents := releaseFd_recvEvents _ _
    dsimp only
    split_ifs
    · exact ⟨_, congrArg (· ++ _) hrelease, by simp⟩
    · exact ⟨[], by rw [List.append_nil]; exact hrelease, by simp⟩

theorem removeConnection_log {w : NetWorker} (hkeyed : w.WellKeyed) (id : ℕ) :
    ∃ events, (w.removeConnection id .timeout).recvEvents = w.recvEvents ++ events ∧
      ∀ ev, ev ∈ events ↔ id ∈ w.connections ∧ ev = failure id .timeout := by
  cases hl : w.connections.lookup id with
  | none =>
    have hout : id ∉ w.connections := AList.lookup_eq_none.mp hl
    refine ⟨[], ?_, fun ev => by simp [hout]⟩
    unfold removeConnection
    rw [hl, List.append_nil]
  | some conn =>
    have hin := mem_of_lookup hl
    exact ⟨[failure id .timeout], removeConnection_failure hl (hkeyed id conn hl) (by decide),
      fun ev => by simp [hin]⟩

theorem untimed_removeConnection (w : NetWorker) (id : ℕ) {err : NetErrc} (herr : err ≠ .timeout) :
    Untimed w (w.removeConnection id err) := by
  obtain ⟨events, hlog, hall⟩ := removeConnection_recvEvents w id err
  exact ⟨events, hlog, fun ev hev => hall ev hev ▸ herr⟩

theorem untimed_drainRead (id : ℕ) (recvs : List RecvResult) (w : NetWorker) :
    Untimed w (w.drainRead id recvs) := by
  induction recvs generalizing w with
  | nil => exact untimed_same rfl
  | cons result recvs ih =>
    cases result with
    | wouldBlock => exact untimed_same rfl
    | failed => exact untimed_removeConnection w id (by decide)
    | data bytes =>
      cases bytes with
      | nil => exact untimed_removeConnection w id (by decide)
      | cons b bytes =>
        have hreceived : Untimed w (w.received id (b :: bytes)) :=
          untimed_pushEvent _ (show NetErrc.ok ≠ .timeout by decide)
        exact hreceived.trans (ih _)

theorem Completed.untimed {conn conn' : Connection} (h : Completed id w conn w' conn') :
    Untimed w w' := by
  cases h with
  | settled => exact untimed_same rfl
  | connected => exact untimed_same (modFd_recvEvents _ _ _)

theorem Dispatched.untimed {ev : ReadyEvent} {target : Option (NetWorker × Connection)}
    (h : Dispatched ev w target w') : Untimed w w' := by
  cases h with
  | unknown => exact untimed_same rfl
  | removed _ _ => exact untimed_removeConnection _ _ (by decide)
  | reads recvs _ _ => exact untimed_drainRead _ recvs _
  | @fails id conn conn' v st _ _ hdone _ =>
    have hflushed : Untimed v (v.flushed id conn' st) := untimed_same rfl
    exact (hdone.untimed.trans hflushed).trans (untimed_removeConnection _ _ (by decide))
  | @flushes id conn conn' v st recvs _ _ hdone _ =>
    have hflushed : Untimed v ((v.flushed id conn' st).modFd conn'.fd
        (if st.pending = [] then readMask else readWriteMask)) :=
      untimed_same (modFd_recvEvents _ _ _)
    exact (hdone.untimed.trans hflushed).trans (untimed_drainRead _ recvs _)

theorem untimed_connectTcp (id fd : ℕ) (conn : Connection) (sys : CreateSys) (w : NetWorker) :
    Untimed w (w.connectTcp id fd conn sys) := by
  unfold connectTcp
  dsimp only
  split_ifs
  · exact (untimed_same rfl).trans (untimed_removeConnection ((w.setConnection id conn).closeFd fd)
      id (by decide))
  · cases sys.connect with
    | connected => exact untimed_same (modFd_recvEvents _ _ _)
    | inProgress => exact untimed_same rfl
    | failed =>
      exact (untimed_same rfl).trans (untimed_removeConnection
        ((w.setConnection id conn).registerFd id fd readWriteMask) id (by decide))

theorem untimed_connectUdp (id fd : ℕ) (conn : Connection) (sys : CreateSys) (w : NetWorker) :
    Untimed w (w.connectUdp id fd conn sys) := by
  have hclosed : ∀ err, err ≠ .timeout →
      Untimed w (((w.setConnection id conn).closeFd fd).removeConnection id err) := by
    intro err herr
    have hclose : Untimed w ((w.setConnection id conn).closeFd fd) := untimed_same rfl
    exact hclose.trans (untimed_removeConnection _ id herr)
  unfold connectUdp
  dsimp only
  split_ifs
  · exact hclosed _ (by decide)
  · exact hclosed _ (by decide)
  · exact untimed_same rfl

theorem untimed_create (id : ℕ) (endpoint : Endpoint) (sys : CreateSys) (conn : Connection)
    {connect : ℕ → NetWorker → NetWorker} (w : NetWorker)
    (hconnect : ∀ fd w, Untimed w (connect fd w)) :
    Untimed w
      (if id ∈ w.connections then w.removeConnection id .ioFailed
      else if buildSockAddr endpoint sys.resolved = false then
        (w.setConnection id conn).removeConnection id .resolveFailed
      else
        match sys.socketFd with
        | none => (w.setConnection id conn).removeConnection id .socketCreateFailed
        | some fd =>
          if sys.nonBlocking = false then
            ((w.setConnection id conn).closeFd fd).removeConnection id .setNonBlockingFailed
          else connect fd (w.setConnection id conn)) := by
  have hset : Untimed w (w.setConnection id conn) := untimed_same rfl
  by_cases hmem : id ∈ w.connections
  · rw [if_pos hmem]
    exact untimed_removeConnection w id (by decide)
  rw [if_neg hmem]
  by_cases hres : buildSockAddr endpoint sys.resolved = false
  · rw [if_pos hres]
    exact hset.trans (untimed_removeConnection _ id (by decide))
  · rw [if_neg hres]
    cases sys.socketFd with
    | none => exact hset.trans (untimed_removeConnection _ id (by decide))
    | some fd =>
      dsimp only
      split_ifs
      · exact (untimed_same rfl).trans (untimed_removeConnection
          ((w.setConnection id conn).closeFd fd) id (by decide))
      · exact hset.trans (hconnect fd _)

theorem untimed_handleCommand (create : ℕ → CreateSys) (w : NetWorker) (cmd : Command) :
    Untimed w (w.handleCommand create cmd) := by
  cases cmd with
  | createTcp id endpoint timeoutMs =>
    exact untimed_create id endpoint (create id) (initialTcp id timeoutMs (create id).beginNs) w
      fun fd => untimed_connectTcp id fd _ (create id)
  | createUdp id endpoint =>
    exact untimed_create id endpoint (create id) (initialUdp id) w
      fun fd => untimed_connectUdp id fd _ (create id)
  | send id payload =>
    show Untimed w (w.handleSend id payload)
    unfold handleSend
    cases w.connections.lookup id with
    | none => exact untimed_pushEvent _ (show NetErrc.connectionNotFound ≠ .timeout by decide)
    | some conn =>
      dsimp only
      split_ifs
      · exact untimed_same rfl
      · exact untimed_same (modFd_recvEvents _ _ _)
  | close id => exact untimed_removeConnection w id (by decide)

end Errors

theorem start_recvEvents (w : NetWorker) (sys : StartSys) :
    (w.start sys).1.recvEvents = w.recvEvents := by
  cases hstarted : w.started with
  | true => rw [start_started hstarted]
  | false =>
    rcases NetWorker.start_cases hstarted sys with ⟨-, hw⟩ | ⟨_, -, -, hw⟩ | ⟨_, _, -, -, -, hw⟩ |
      ⟨_, _, -, -, -, hw⟩ <;> rw [hw] <;> rfl

/-! ## One check -/

theorem connectTimedOut_iff (nowNs : ℤ) (conn : Connection) :
    connectTimedOut nowNs conn = true ↔
      conn.type = .tcp ∧ conn.state = .connecting ∧ 0 < conn.connectTimeoutMs ∧
        conn.connectBeginNs + (conn.connectTimeoutMs + 1) * 1000000 ≤ nowNs := by
  have hms : 0 < conn.connectTimeoutMs →
      ((nowNs - conn.connectBeginNs).tdiv 1000000 > conn.connectTimeoutMs ↔
        conn.connectBeginNs + (conn.connectTimeoutMs + 1) * 1000000 ≤ nowNs) := by
    intro hpos
    rcases le_total 0 (nowNs - conn.connectBeginNs) with hd | hd
    · rw [Int.tdiv_eq_ediv_of_nonneg hd]
      omega
    · have hneg : (nowNs - conn.connectBeginNs).tdiv 1000000 ≤ 0 := by
        rw [← neg_sub, Int.neg_tdiv,
          Int.tdiv_eq_ediv_of_nonneg (show 0 ≤ conn.connectBeginNs - nowNs by omega)]
        omega
      omega
  unfold connectTimedOut
  simp only [Bool.and_eq_true, decide_eq_true_eq, and_assoc]
  constructor
  · rintro ⟨htype, hstate, hpos, hlate⟩
    exact ⟨htype, hstate, hpos, (hms hpos).mp hlate⟩
  · rintro ⟨htype, hstate, hpos, hlate⟩
    exact ⟨htype, hstate, hpos, (hms hpos).mpr hlate⟩

/-- What the removal of the connections under `ids` reports, and what it leaves. -/
theorem removeTimedOut {w : NetWorker} (hkeyed : w.WellKeyed) (ids : List ℕ) :
    (∃ events, (ids.foldl (fun w id => w.removeConnection id .timeout) w).recvEvents
        = w.recvEvents ++ events ∧
      ∀ ev, ev ∈ events ↔ ∃ id ∈ ids, id ∈ w.connections ∧ ev = failure id .timeout) ∧
    ∀ id, (ids.foldl (fun w id => w.removeConnection id .timeout) w).connections.lookup id
      = if id ∈ ids then none else w.connections.lookup id := by
  induction ids generalizing w with
  | nil => exact ⟨⟨[], by simp, by simp⟩, by simp⟩
  | cons id ids ih =>
    obtain ⟨events, hlog, hall⟩ := removeConnection_log hkeyed id
    obtain ⟨⟨events', hlog', hall'⟩, hrest⟩ :=
      ih ((moves_removeConnection w id .timeout).wellKeyed hkeyed)
    have hconn := removeConnection_connections w id .timeout
    refine ⟨⟨events ++ events', ?_, fun ev => ?_⟩, fun k => ?_⟩
    · rw [List.foldl_cons, hlog', hlog, List.append_assoc]
    · rw [List.mem_append, hall, hall', hconn]
      constructor
      · rintro (⟨hmem, rfl⟩ | ⟨k, hk, hmem, rfl⟩)
        · exact ⟨id, List.mem_cons_self, hmem, rfl⟩
        · exact ⟨k, List.mem_cons_of_mem _ hk, (AList.mem_erase.mp hmem).2, rfl⟩
      · rintro ⟨k, hk, hmem, rfl⟩
        by_cases hid : k = id
        · subst hid
          exact .inl ⟨hmem, rfl⟩
        · have hin := (List.mem_cons.mp hk).resolve_left hid
          exact .inr ⟨k, hin, AList.mem_erase.mpr ⟨hid, hmem⟩, rfl⟩
    · rw [List.foldl_cons, hrest, hconn]
      by_cases hid : k = id
      · subst hid
        simp
      · simp [hid]

/-- **One check**: it reports the connections that are timed out, removes them and leaves the
others. -/
theorem checkConnectTimeouts_spec {w : NetWorker} (hkeyed : w.WellKeyed) (nowNs : ℤ)
    (order : List ℕ) :
    (∃ events, (w.checkConnectTimeouts nowNs order).recvEvents = w.recvEvents ++ events ∧
      ∀ ev, ev ∈ events ↔ ∃ id conn, w.connections.lookup id = some conn ∧
        connectTimedOut nowNs conn = true ∧ ev = failure id .timeout) ∧
    ∀ id, (w.checkConnectTimeouts nowNs order).connections.lookup id
      = (w.connections.lookup id).filter fun conn => !connectTimedOut nowNs conn := by
  unfold checkConnectTimeouts
  dsimp only
  generalize hids : (w.connections.visit order).filterMap _ = ids
  have hmem : ∀ id, id ∈ ids ↔
      ∃ conn, w.connections.lookup id = some conn ∧ connectTimedOut nowNs conn = true := by
    intro id
    rw [← hids, List.mem_filterMap]
    constructor
    · rintro ⟨k, -, hk⟩
      cases hl : w.connections.lookup k with
      | none => simp [hl] at hk
      | some conn =>
        simp only [hl] at hk
        split_ifs at hk with hlate
        · cases hk
          rw [hkeyed k conn hl]
          exact ⟨conn, hl, hlate⟩
    · rintro ⟨conn, hl, hlate⟩
      refine ⟨id, ?_, by simp [hl, hlate, hkeyed id conn hl]⟩
      exact (w.connections.visit_perm order).mem_iff.mpr (mem_of_lookup hl)
  obtain ⟨⟨events, hlog, hall⟩, hrest⟩ := removeTimedOut hkeyed ids
  refine ⟨⟨events, hlog, fun ev => ?_⟩, fun id => ?_⟩
  · rw [hall]
    constructor
    · rintro ⟨id, hid, -, rfl⟩
      obtain ⟨conn, hl, hlate⟩ := (hmem id).mp hid
      exact ⟨id, conn, hl, hlate, rfl⟩
    · rintro ⟨id, conn, hl, hlate, rfl⟩
      exact ⟨id, (hmem id).mpr ⟨conn, hl, hlate⟩, mem_of_lookup hl, rfl⟩
  · rw [hrest]
    cases hl : w.connections.lookup id with
    | none => simp
    | some conn =>
      have hiff : id ∈ ids ↔ connectTimedOut nowNs conn = true := by
        simp [hmem, hl]
      by_cases hlate : connectTimedOut nowNs conn = true
      · rw [if_pos (hiff.mpr hlate), Option.filter_some, hlate]
        rfl
      · rw [if_neg (fun h => hlate (hiff.mp h))]
        simp [Option.filter_some, hlate]

/-! ## Runs -/

namespace Polling

variable {p : Polling}

theorem step_untimed (h : p.net.WellKeyed) {s : Step}
    (hs : ∀ nowNs order, s ≠ .checkConnectTimeouts nowNs order) :
    ∀ ev ∈ emits (p, s), ev.error ≠ .timeout := by
  have huntimed : ∀ {w' : NetWorker}, (p.step s).net = w' → Untimed p.net w' →
      ∀ ev ∈ emits (p, s), ev.error ≠ .timeout := by
    rintro w' rfl ⟨events, hlog, hnone⟩ ev hev
    unfold emits at hev
    rw [drop_of_log hlog] at hev
    exact hnone ev hev
  have hsilent : (p.step s).net.recvEvents.length ≤ p.net.recvEvents.length →
      ∀ ev ∈ emits (p, s), ev.error ≠ .timeout := by
    intro hle ev hev
    unfold emits at hev
    rw [List.drop_eq_nil_of_le hle] at hev
    cases hev
  cases s with
  | checkConnectTimeouts nowNs order => exact absurd rfl (hs nowNs order)
  | start sys => exact hsilent (congrArg List.length (start_recvEvents p.net sys)).le
  | stop => exact hsilent (congrArg List.length (stop_silent p.net).1).le
  | submit cmd sys => exact huntimed rfl (untimed_same (submit_sameNet cmd sys p.net).recvEvents)
  | clearEvents => exact hsilent (Nat.zero_le _)
  | take => exact huntimed rfl (untimed_same rfl)
  | execute create =>
    cases ht : p.taken with
    | nil => exact huntimed (by rw [step_execute_nil ht]) (untimed_same rfl)
    | cons cmd cmds =>
      exact huntimed (by rw [step_execute_cons ht]) (untimed_handleCommand create p.net cmd)
  | dispatch ev => exact huntimed rfl (dispatch_dispatched h ev).untimed

/-- The visit executes the command that begins the tcp connection `id`, with its timeout and with
the clock as the handler reads it last. -/
def Begins (id : ℕ) (timeoutMs beginNs : ℤ) (x : Polling × Step) : Prop :=
  ∃ create endpoint, x.2 = .execute create ∧
    x.1.executing x.2 = some (.createTcp id endpoint timeoutMs) ∧ beginNs = (create id).laterNs

/-- Each tcp connection in the table was begun in one of the visits. -/
def Begun (p : Polling) (hist : List (Polling × Step)) : Prop :=
  ∀ id conn, p.net.connections.lookup id = some conn → conn.type = .tcp →
    ∃ x ∈ hist, Begins id conn.connectTimeoutMs conn.connectBeginNs x

theorem start_keepsClock (w : NetWorker) (sys : StartSys) : KeepsClock w (w.start sys).1 := by
  cases hstarted : w.started with
  | true =>
    rw [start_started hstarted]
    exact fun _ conn hl => ⟨conn, hl, rfl, rfl, rfl⟩
  | false =>
    intro id conn hl
    rcases NetWorker.start_cases hstarted sys with ⟨-, hw⟩ | ⟨_, -, -, hw⟩ | ⟨_, _, -, -, -, hw⟩ |
      ⟨_, _, -, -, -, hw⟩
    · rw [hw] at hl
      exact ⟨conn, hl, rfl, rfl, rfl⟩
    · rw [hw] at hl
      cases hl
    · rw [hw] at hl
      cases hl
    · rw [hw] at hl
      exact ⟨conn, hl, rfl, rfl, rfl⟩

theorem stop_keepsClock (w : NetWorker) : KeepsClock w w.stop := by
  intro id conn hl
  unfold NetWorker.stop at hl
  split_ifs at hl
  · exact ⟨conn, hl, rfl, rfl, rfl⟩
  · cases hl

/-- **One step.** A tcp connection after it has been there with the same deadline, or the step
begins it. -/
theorem step_clock (h : p.net.WellKeyed) (s : Step) {id : ℕ} {conn' : Connection}
    (hl : (p.step s).net.connections.lookup id = some conn') (htcp : conn'.type = .tcp) :
    (∃ conn, p.net.connections.lookup id = some conn ∧ conn'.SameClock conn) ∨
      Begins id conn'.connectTimeoutMs conn'.connectBeginNs (p, s) := by
  cases s with
  | start sys => exact .inl (start_keepsClock p.net sys id conn' hl)
  | stop => exact .inl (stop_keepsClock p.net id conn' hl)
  | submit cmd sys =>
    have hsame := (submit_sameNet cmd sys p.net).connections
    exact .inl ⟨conn', by rw [← hsame]; exact hl, rfl, rfl, rfl⟩
  | clearEvents => exact .inl ⟨conn', hl, rfl, rfl, rfl⟩
  | take => exact .inl ⟨conn', hl, rfl, rfl, rfl⟩
  | execute create =>
    cases ht : p.taken with
    | nil =>
      rw [step_execute_nil ht] at hl
      exact .inl ⟨conn', hl, rfl, rfl, rfl⟩
    | cons cmd cmds =>
      rw [step_execute_cons ht] at hl
      rcases handleCommand_clock create p.net cmd hl with hold | hudp | ⟨endpoint, rfl, hbegin⟩
      · exact .inl hold
      · rw [hudp] at htcp
        cases htcp
      · exact .inr ⟨create, endpoint, rfl, by simp [executing, ht], hbegin⟩
  | checkConnectTimeouts nowNs order =>
    exact .inl ((fades_checkConnectTimeouts p.net nowNs order).toThins.keepsClock id conn' hl)
  | dispatch ev => exact .inl ((dispatch_dispatched h ev).keepsClock id conn' hl)

theorem begun_step {hist : List (Polling × Step)} (h : p.net.WellKeyed) (hbegun : Begun p hist)
    (s : Step) : Begun (p.step s) (hist ++ [(p, s)]) := by
  intro id conn' hl htcp
  rcases step_clock h s hl htcp with ⟨conn, hold, hsame⟩ | hbegins
  · obtain ⟨x, hx, hbegins⟩ := hbegun id conn hold (hsame.type ▸ htcp)
    refine ⟨x, List.mem_append_left _ hx, ?_⟩
    rw [hsame.connectTimeoutMs, hsame.connectBeginNs]
    exact hbegins
  · exact ⟨(p, s), List.mem_append_right _ (List.mem_singleton_self _), hbegins⟩

theorem begun_run (steps : List Step) : Begun (run {} steps) (visits {} steps) := by
  have hinit : Sane {} ∧ Begun {} [] := by
    refine ⟨sane_init, fun id conn hl => ?_⟩
    cases hl
  exact (@Mealy.history_invariant _ _ Polling.step (fun p hist => p.Sane ∧ Begun p hist)
    (fun _ => True) (fun p _ s _ h => ⟨h.1.step s, begun_step h.1.wellKeyed h.2 s⟩) {} [] hinit
    steps fun _ _ => trivial).2

/-- The connect of the connection, begun in one of the visits, has taken longer than its timeout, in
whole milliseconds. -/
structure Overdue (hist : List (Polling × Step)) (nowNs : ℤ) (id : ℕ) (conn : Connection) :
    Prop where
  tcp : conn.type = .tcp
  connecting : conn.state = .connecting
  begun : ∃ x ∈ hist, Begins id conn.connectTimeoutMs conn.connectBeginNs x
  limited : 0 < conn.connectTimeoutMs
  late : conn.connectBeginNs + (conn.connectTimeoutMs + 1) * 1000000 ≤ nowNs

theorem overdue_iff {hist : List (Polling × Step)} (h : Begun p hist) {id : ℕ} {conn : Connection}
    (hl : p.net.connections.lookup id = some conn) (nowNs : ℤ) :
    Overdue hist nowNs id conn ↔ connectTimedOut nowNs conn = true := by
  rw [connectTimedOut_iff]
  constructor
  · rintro ⟨htcp, hconnecting, -, hlimited, hlate⟩
    exact ⟨htcp, hconnecting, hlimited, hlate⟩
  · rintro ⟨htcp, hconnecting, hlimited, hlate⟩
    exact ⟨htcp, hconnecting, h id conn hl htcp, hlimited, hlate⟩

/-- **Timeouts are exact.** An event with `kTimeout` is emitted by a check only, for a connection
that is overdue. The check reports and removes each such connection, and leaves every other. -/
theorem timeouts_exact (steps : List Step) (s : Step) :
    (∀ ev ∈ emits (run {} steps, s), ev.error = .timeout → ∃ nowNs order conn,
      s = .checkConnectTimeouts nowNs order ∧
      (run {} steps).net.connections.lookup ev.connId = some conn ∧
      Overdue (visits {} steps) nowNs ev.connId conn) ∧
    ∀ nowNs order, s = .checkConnectTimeouts nowNs order → ∀ id conn,
      (run {} steps).net.connections.lookup id = some conn →
      (Overdue (visits {} steps) nowNs id conn →
        failure id .timeout ∈ emits (run {} steps, s) ∧
          id ∉ ((run {} steps).step s).net.connections) ∧
      (¬ Overdue (visits {} steps) nowNs id conn →
        ((run {} steps).step s).net.connections.lookup id = some conn) := by
  have hkeyed : (run {} steps).net.WellKeyed := (sane_init.run steps).wellKeyed
  have hbegun := begun_run steps
  generalize run {} steps = p at hkeyed hbegun ⊢
  generalize visits {} steps = hist at hbegun ⊢
  constructor
  · intro ev hev htimeout
    by_cases hs : ∃ nowNs order, s = .checkConnectTimeouts nowNs order
    · obtain ⟨nowNs, order, rfl⟩ := hs
      obtain ⟨⟨events, hlog, hall⟩, -⟩ := checkConnectTimeouts_spec hkeyed nowNs order
      have hmem : ev ∈ events := by
        rw [← drop_of_log hlog]
        exact hev
      obtain ⟨id, conn, hl, hlate, rfl⟩ := (hall ev).mp hmem
      exact ⟨nowNs, order, conn, rfl, hl, (overdue_iff hbegun hl nowNs).mpr hlate⟩
    · push Not at hs
      exact absurd htimeout (step_untimed hkeyed hs ev hev)
  · rintro nowNs order rfl id conn hl
    obtain ⟨⟨events, hlog, hall⟩, hrest⟩ := checkConnectTimeouts_spec hkeyed nowNs order
    rw [overdue_iff hbegun hl]
    have hafter := hrest id
    rw [hl, Option.filter_some] at hafter
    constructor
    · intro hlate
      rw [hlate] at hafter
      refine ⟨?_, AList.lookup_eq_none.mp hafter⟩
      show failure id .timeout ∈ List.drop _ _
      rw [step_checkConnectTimeouts, drop_of_log hlog]
      exact (hall _).mpr ⟨id, conn, hl, hlate, rfl⟩
    · intro hlate
      simp only [Bool.not_eq_true] at hlate
      rw [hlate] at hafter
      exact hafter

end Polling

end NetWorker

end TitanBench
