import TitanBench.NetworkLedger

/-!
# Data that arrives together with the peer's close

The peer has sent some data and closed: `recv` returns the data in pieces and then end of stream.
`DrainRead` emits the pieces before the error event, but the dispatch reaches it only when the
mask has no bit of a hang-up and nothing fails on the way.

* `drainRead_closedPeer` — what `DrainRead` does with such a socket.
* `ReadsFirst` — what an event must be for the dispatch to reach it.
* `dispatch_reads`, `dispatch_waits` — then the data is read, or the event does not announce any.
* `dispatch_skips` — otherwise the connection is removed and nothing is read.
-/

namespace TitanBench

namespace NetWorker

def dataEvent (id : ℕ) (bytes : Bytes) : RecvEvent := { connId := id, data := bytes }

def errorEvent (id : ℕ) : RecvEvent := { connId := id, isError := true, error := .ioFailed }

/-- What `recv` reports on a socket that holds `pieces` and whose peer has closed. -/
def closedPeer (pieces : List Bytes) : List RecvResult :=
  pieces.map .data ++ [.data []]

/-- Neither the completion of the connect nor a `send` fails, if the event has them made. -/
def WritesOk (conn : Connection) (ev : ReadyEvent) : Prop :=
  ev.mask.epollOut = true →
    (conn.type = .tcp ∧ conn.state = .connecting → ev.socketError = .none) ∧
      (flushLoop ev.sends { pending := conn.pendingSend }).failed = false

/-- The event leads to `DrainRead`, or leaves the connection alone. -/
def ReadsFirst (conn : Connection) (ev : ReadyEvent) : Prop :=
  (ev.mask.epollErr || ev.mask.epollHup || ev.mask.epollRdHup) = false ∧ WritesOk conn ev

/-! ## Removal -/

section Removal

variable {w : NetWorker} {id : ℕ} {conn : Connection}

@[simp] theorem releaseFd_recvEvents (w : NetWorker) (fd : Option ℕ) :
    (w.releaseFd fd).recvEvents = w.recvEvents := by
  cases fd <;> rfl

@[simp] theorem modFd_recvEvents (w : NetWorker) (fd : Option ℕ) (mask : EpollMask) :
    (w.modFd fd mask).recvEvents = w.recvEvents := by
  cases fd <;> rfl

@[simp] theorem modFd_connections (w : NetWorker) (fd : Option ℕ) (mask : EpollMask) :
    (w.modFd fd mask).connections = w.connections := by
  cases fd <;> rfl

theorem removeConnection_events (h : w.connections.lookup id = some conn) (hid : conn.id = id) :
    (w.removeConnection id .ioFailed).recvEvents = w.recvEvents ++ [errorEvent id] := by
  unfold removeConnection
  simp [h, hid, pushEvent, errorEvent]

theorem removeConnection_lookup (w : NetWorker) (id : ℕ) (err : NetErrc) :
    (w.removeConnection id err).connections.lookup id = none := by
  unfold removeConnection
  cases h : w.connections.lookup id with
  | none => exact h
  | some conn => exact AList.lookup_erase id _

/-- The pieces come out in order, then the error event, and the connection is gone. -/
theorem drainRead_closedPeer {pieces : List Bytes} (hne : ∀ p ∈ pieces, p ≠ [])
    (h : w.connections.lookup id = some conn) (hid : conn.id = id) :
    (w.drainRead id (closedPeer pieces)).recvEvents
        = w.recvEvents ++ pieces.map (dataEvent id) ++ [errorEvent id] ∧
      (w.drainRead id (closedPeer pieces)).connections.lookup id = none := by
  induction pieces generalizing w with
  | nil =>
    refine ⟨?_, removeConnection_lookup w id .ioFailed⟩
    rw [List.map_nil, List.append_nil]
    exact removeConnection_events h hid
  | cons p pieces ih =>
    obtain ⟨b, bytes, rfl⟩ := List.exists_cons_of_ne_nil (hne p List.mem_cons_self)
    have hrest := ih (w := w.received id (b :: bytes))
      (fun q hq => hne q (List.mem_cons_of_mem _ hq)) h
    have hcons : w.drainRead id (closedPeer ((b :: bytes) :: pieces))
        = (w.received id (b :: bytes)).drainRead id (closedPeer pieces) := rfl
    rw [hcons]
    refine ⟨hrest.1.trans ?_, hrest.2⟩
    simp [received, pushEvent, dataEvent]

/-! ## The write branch -/

theorem flushWrite_alive (h : w.connections.lookup id = some conn) {sends : List SendResult}
    (hok : (flushLoop sends { pending := conn.pendingSend }).failed = false) :
    (w.flushWrite id sends).recvEvents = w.recvEvents ∧
      ∃ conn', (w.flushWrite id sends).connections.lookup id = some conn' := by
  unfold flushWrite
  simp only [h, hok, Bool.false_eq_true, if_false, modFd_recvEvents, modFd_connections]
  exact ⟨rfl,
    { conn with pendingSend := (flushLoop sends { pending := conn.pendingSend }).pending },
    AList.lookup_insert w.connections⟩

theorem flushWrite_dead (h : w.connections.lookup id = some conn) (hid : conn.id = id)
    {sends : List SendResult}
    (hfail : (flushLoop sends { pending := conn.pendingSend }).failed = true) :
    (w.flushWrite id sends).recvEvents = w.recvEvents ++ [errorEvent id] ∧
      (w.flushWrite id sends).connections.lookup id = none := by
  unfold flushWrite
  simp only [h, hfail, if_true]
  refine ⟨?_, removeConnection_lookup _ _ _⟩
  have hl : (w.flushed id conn (flushLoop sends { pending := conn.pendingSend })).connections.lookup
      id = some
        { conn with pendingSend := (flushLoop sends { pending := conn.pendingSend }).pending } :=
    AList.lookup_insert w.connections
  exact removeConnection_events hl hid

/-- A connection that completes keeps its place and what it has to send. -/
theorem completeIfConnecting_alive (h : w.connections.lookup id = some conn) (hid : conn.id = id)
    {e : SocketError} (hok : conn.type = .tcp ∧ conn.state = .connecting → e = .none) :
    (w.completeIfConnecting conn e).recvEvents = w.recvEvents ∧
      ∃ conn', (w.completeIfConnecting conn e).connections.lookup id = some conn' ∧
        conn'.id = id ∧ conn'.pendingSend = conn.pendingSend := by
  unfold completeIfConnecting
  by_cases hc : conn.type = .tcp ∧ conn.state = .connecting
  · have hopen : ¬ (conn.type ≠ .tcp ∨ conn.state ≠ .connecting) := by simp [hc]
    rw [if_pos hc, hid, hok hc]
    unfold completeTcpConnect
    simp only [h]
    rw [if_neg hopen, modFd_recvEvents, modFd_connections]
    exact ⟨rfl, { conn with state := .connected }, AList.lookup_insert w.connections, hid, rfl⟩
  · rw [if_neg hc]
    exact ⟨rfl, conn, h, hid, rfl⟩

theorem completeIfConnecting_dead (h : w.connections.lookup id = some conn) (hid : conn.id = id)
    {e : SocketError} (hc : conn.type = .tcp ∧ conn.state = .connecting) (he : e ≠ .none) :
    (w.completeIfConnecting conn e).recvEvents = w.recvEvents ++ [errorEvent id] ∧
      (w.completeIfConnecting conn e).connections.lookup id = none := by
  have heq : w.completeIfConnecting conn e = w.removeConnection id .ioFailed := by
    unfold completeIfConnecting completeTcpConnect
    rw [if_pos hc, hid, h]
    simp only [hc, ne_eq, not_true_eq_false, or_self, if_false]
    cases e with
    | none => exact absurd rfl he
    | reported => rfl
    | unavailable => rfl
  rw [heq]
  exact ⟨removeConnection_events h hid, removeConnection_lookup _ _ _⟩

theorem dispatchOut_alive (h : w.connections.lookup id = some conn) (hid : conn.id = id)
    {ev : ReadyEvent} (hok : WritesOk conn ev) :
    (w.dispatchOut id conn ev).recvEvents = w.recvEvents ∧
      ∃ conn', (w.dispatchOut id conn ev).connections.lookup id = some conn' := by
  unfold dispatchOut
  by_cases hout : ev.mask.epollOut = true
  · obtain ⟨hconnect, hflush⟩ := hok hout
    obtain ⟨hev, conn', hl, -, hp⟩ := completeIfConnecting_alive h hid hconnect
    have hmem : id ∈ (w.completeIfConnecting conn ev.socketError).connections :=
      AList.lookup_isSome.mp (by rw [hl]; rfl)
    simp only [hout, if_true, hmem, not_true_eq_false, if_false, hid]
    rw [← hp] at hflush
    obtain ⟨hev', hl'⟩ := flushWrite_alive hl hflush
    exact ⟨hev'.trans hev, hl'⟩
  · rw [if_neg hout]
    exact ⟨rfl, conn, h⟩

theorem dispatchOut_dead (h : w.connections.lookup id = some conn) (hid : conn.id = id)
    {ev : ReadyEvent} (hbad : ¬ WritesOk conn ev) :
    (w.dispatchOut id conn ev).recvEvents = w.recvEvents ++ [errorEvent id] ∧
      (w.dispatchOut id conn ev).connections.lookup id = none := by
  unfold WritesOk at hbad
  push Not at hbad
  obtain ⟨hout, hbad⟩ := hbad
  unfold dispatchOut
  simp only [hout, if_true]
  by_cases hconnect : conn.type = .tcp ∧ conn.state = .connecting → ev.socketError = .none
  · obtain ⟨hev, conn', hl, hid', hp⟩ := completeIfConnecting_alive h hid hconnect
    have hmem : id ∈ (w.completeIfConnecting conn ev.socketError).connections :=
      AList.lookup_isSome.mp (by rw [hl]; rfl)
    have hfail : (flushLoop ev.sends { pending := conn'.pendingSend }).failed = true := by
      rw [hp]
      simpa using hbad hconnect
    simp only [hmem, not_true_eq_false, if_false, hid]
    obtain ⟨hev', hl'⟩ := flushWrite_dead hl hid' hfail
    exact ⟨hev'.trans (by rw [hev]), hl'⟩
  · push Not at hconnect
    obtain ⟨hc, he⟩ := hconnect
    obtain ⟨hev, hl⟩ := completeIfConnecting_dead h hid hc he
    have hmem : id ∉ (w.completeIfConnecting conn ev.socketError).connections :=
      AList.lookup_eq_none.mp hl
    simp only [hmem, not_false_eq_true, if_true]
    exact ⟨hev, hl⟩

end Removal

/-! ## The dispatch -/

section Dispatch

variable {w : NetWorker} {id : ℕ} {conn : Connection} {ev : ReadyEvent} {pieces : List Bytes}

theorem dispatch_eq (hfd : w.fdToConn.lookup ev.fd = some id)
    (h : w.connections.lookup id = some conn) (hid : conn.id = id) :
    w.dispatch ev =
      if (ev.mask.epollErr || ev.mask.epollHup || ev.mask.epollRdHup) = true then
        w.removeConnection id .ioFailed
      else if id ∉ (w.dispatchOut id conn ev).connections then w.dispatchOut id conn ev
      else if ev.mask.epollIn = true then (w.dispatchOut id conn ev).drainRead id ev.recvs
      else w.dispatchOut id conn ev := by
  unfold dispatch
  simp only [hfd, h, hid]

theorem dispatch_eq_of_readsFirst (hfd : w.fdToConn.lookup ev.fd = some id)
    (h : w.connections.lookup id = some conn) (hid : conn.id = id) (hok : ReadsFirst conn ev) :
    w.dispatch ev = if ev.mask.epollIn = true then (w.dispatchOut id conn ev).drainRead id ev.recvs
      else w.dispatchOut id conn ev := by
  obtain ⟨-, conn', hl⟩ := dispatchOut_alive h hid hok.2
  have hmem : id ∈ (w.dispatchOut id conn ev).connections :=
    AList.lookup_isSome.mp (by rw [hl]; rfl)
  rw [dispatch_eq hfd h hid]
  simp only [hok.1, Bool.false_eq_true, if_false, hmem, not_true_eq_false]

/-- On the way to `DrainRead` all that waits is read. -/
theorem dispatch_reads (hfd : w.fdToConn.lookup ev.fd = some id)
    (h : w.connections.lookup id = some conn) (hid : conn.id = id)
    (hk : (w.dispatchOut id conn ev).WellKeyed) (hne : ∀ p ∈ pieces, p ≠ [])
    (hrecv : ev.recvs = closedPeer pieces) (hok : ReadsFirst conn ev)
    (hin : ev.mask.epollIn = true) :
    (w.dispatch ev).recvEvents = w.recvEvents ++ pieces.map (dataEvent id) ++ [errorEvent id] ∧
      (w.dispatch ev).connections.lookup id = none := by
  obtain ⟨hev, conn', hl⟩ := dispatchOut_alive h hid hok.2
  obtain ⟨hall, hgone⟩ := drainRead_closedPeer hne hl (hk _ _ hl)
  rw [dispatch_eq_of_readsFirst hfd h hid hok, if_pos hin, hrecv]
  exact ⟨by rw [hall, hev], hgone⟩

/-- Nothing is announced and nothing is read. -/
theorem dispatch_waits (hfd : w.fdToConn.lookup ev.fd = some id)
    (h : w.connections.lookup id = some conn) (hid : conn.id = id) (hok : ReadsFirst conn ev)
    (hin : ¬ ev.mask.epollIn = true) :
    (w.dispatch ev).recvEvents = w.recvEvents ∧
      ∃ conn', (w.dispatch ev).connections.lookup id = some conn' := by
  rw [dispatch_eq_of_readsFirst hfd h hid hok, if_neg hin]
  exact dispatchOut_alive h hid hok.2

/-- Off that way the connection is removed before anything is read. -/
theorem dispatch_skips (hfd : w.fdToConn.lookup ev.fd = some id)
    (h : w.connections.lookup id = some conn) (hid : conn.id = id) (hbad : ¬ ReadsFirst conn ev) :
    (w.dispatch ev).recvEvents = w.recvEvents ++ [errorEvent id] ∧
      (w.dispatch ev).connections.lookup id = none := by
  rw [dispatch_eq hfd h hid]
  by_cases hbits : (ev.mask.epollErr || ev.mask.epollHup || ev.mask.epollRdHup) = true
  · rw [if_pos hbits]
    exact ⟨removeConnection_events h hid, removeConnection_lookup _ _ _⟩
  · rw [if_neg hbits]
    have hwrites : ¬ WritesOk conn ev := fun hw => hbad ⟨by simpa using hbits, hw⟩
    obtain ⟨hev, hl⟩ := dispatchOut_dead h hid hwrites
    rw [if_pos (AList.lookup_eq_none.mp hl)]
    exact ⟨hev, hl⟩

end Dispatch

end NetWorker

end TitanBench
