import TitanBench.NetworkClose

/-!
# Datagrams

On the socket of a udp connection `recv` returns one datagram at a time, and a datagram may be
empty. `DrainRead` gives the empty result the meaning it has on a stream, for both types.

* `datagrams` — what `recv` reports while datagrams wait, and then nothing.
* `Relays` — every datagram with bytes comes out as one event, and the connection stays.
* `drainRead_empty` — the first empty datagram ends the connection.
* `drainRead_udp_iff` — exactly when the datagrams are relayed.
-/

namespace TitanBench

namespace NetWorker

/-- What `recv` reports on a socket on which the datagrams wait. -/
def datagrams (ds : List Bytes) : List RecvResult := ds.map .data ++ [.wouldBlock]

/-- From `w` to `w'` every datagram with bytes is emitted as a data event of the connection, in
order and with nothing else, and the connection stays in the table. -/
structure Relays (w w' : NetWorker) (conn : Connection) (ds : List Bytes) : Prop where
  events : w'.recvEvents = w.recvEvents ++ (ds.filter (· ≠ [])).map (dataEvent conn.id)
  stays : w'.connections.lookup conn.id = some conn

@[simp] theorem received_connections (w : NetWorker) (id : ℕ) (bytes : Bytes) :
    (w.received id bytes).connections = w.connections := rfl

theorem received_recvEvents (w : NetWorker) (id : ℕ) (bytes : Bytes) :
    (w.received id bytes).recvEvents = w.recvEvents ++ [dataEvent id bytes] := rfl

variable {w : NetWorker} {id : ℕ} {conn : Connection}

/-- Pieces with bytes are emitted one by one. -/
theorem drainRead_data (id : ℕ) {pieces : List Bytes} (hne : ∀ p ∈ pieces, p ≠ [])
    (results : List RecvResult) (w : NetWorker) :
    ∃ w' : NetWorker, w.drainRead id (pieces.map .data ++ results) = w'.drainRead id results ∧
      w'.recvEvents = w.recvEvents ++ pieces.map (dataEvent id) ∧
      w'.connections = w.connections := by
  induction pieces generalizing w with
  | nil => exact ⟨w, rfl, (List.append_nil _).symm, rfl⟩
  | cons p pieces ih =>
    obtain ⟨b, bytes, rfl⟩ := List.exists_cons_of_ne_nil (hne p List.mem_cons_self)
    obtain ⟨w', hdrain, hevents, hconn⟩ := ih (fun q hq => hne q (List.mem_cons_of_mem _ hq))
      (w.received id (b :: bytes))
    refine ⟨w', hdrain, ?_, hconn⟩
    rw [hevents, received_recvEvents, List.append_assoc]
    rfl

/-- What comes before an empty datagram is emitted, then the connection is removed. What comes
after it is never read. -/
theorem drainRead_empty (h : w.connections.lookup conn.id = some conn) {before : List Bytes}
    (after : List Bytes) (hne : ∀ d ∈ before, d ≠ []) :
    (w.drainRead conn.id (datagrams (before ++ [] :: after))).recvEvents =
        w.recvEvents ++ before.map (dataEvent conn.id) ++ [errorEvent conn.id] ∧
      (w.drainRead conn.id (datagrams (before ++ [] :: after))).connections.lookup conn.id =
        none := by
  obtain ⟨w', hdrain, hevents, hconn⟩ :=
    drainRead_data conn.id hne (RecvResult.data [] :: datagrams after) w
  have hsplit : datagrams (before ++ [] :: after) =
      before.map .data ++ RecvResult.data [] :: datagrams after := by
    simp [datagrams]
  rw [← hconn] at h
  rw [hsplit, hdrain, ← hevents]
  exact ⟨removeConnection_events h rfl, removeConnection_lookup _ _ _⟩

theorem drainRead_nonempty (h : w.connections.lookup conn.id = some conn) {ds : List Bytes}
    (hne : ∀ d ∈ ds, d ≠ []) : Relays w (w.drainRead conn.id (datagrams ds)) conn ds := by
  obtain ⟨w', hdrain, hevents, hconn⟩ :=
    drainRead_data conn.id hne [RecvResult.wouldBlock] w
  have hall : ds.filter (· ≠ []) = ds := List.filter_eq_self.mpr fun d hd => by
    simpa using hne d hd
  have hlast : w'.drainRead conn.id [RecvResult.wouldBlock] = w' := rfl
  rw [datagrams, hdrain, hlast]
  constructor
  · rw [hevents, hall]
  · rw [hconn]
    exact h

/-- **Exactly when datagrams are relayed.** On a udp connection, whatever datagrams wait on its
socket, `DrainRead` emits those with bytes and keeps the connection if and only if no datagram is
empty. -/
theorem drainRead_udp_iff : ∀ (w : NetWorker) (conn : Connection) (ds : List Bytes),
    w.connections.lookup conn.id = some conn → conn.type = .udp →
    (Relays w (w.drainRead conn.id (datagrams ds)) conn ds ↔ ∀ d ∈ ds, d ≠ []) := by
  intro w conn ds h _
  constructor
  · intro hrelays d hd hnil
    subst hnil
    -- The first empty datagram removes the connection.
    obtain ⟨before, after, rfl, hbefore⟩ := List.eq_append_cons_of_mem hd
    have hgone := (drainRead_empty h after fun d hd hnil => hbefore (hnil ▸ hd)).2
    rw [hrelays.stays] at hgone
    cases hgone
  · exact drainRead_nonempty h

/-- A worker with one udp connection, id 1 on descriptor 5. -/
def udpActions : List Action :=
  [.start {}, .createUdp { host := ascii "h", port := 53 } {},
    .processCommands fun _ => { socketFd := some 5 }]

def udpConnection : Connection := { fd := some 5, id := 1, type := .udp, state := .connected }

theorem drainRead_udp_iff_two :
    Relays (run {} udpActions)
        ((run {} udpActions).drainRead 1 (datagrams [ascii "a", ascii "bc"])) udpConnection
        [ascii "a", ascii "bc"] ↔
      ∀ d ∈ [ascii "a", ascii "bc"], d ≠ [] :=
  drainRead_udp_iff (run {} udpActions) udpConnection [ascii "a", ascii "bc"] (by decide) rfl

/-- An empty datagram between two others: the connection is removed and the last one is lost. -/
theorem drainRead_udp_ends :
    (run {} udpActions).connections.lookup 1 = some udpConnection ∧
      ¬ Relays (run {} udpActions)
        ((run {} udpActions).drainRead 1 (datagrams [ascii "a", [], ascii "bc"])) udpConnection
        [ascii "a", [], ascii "bc"] := by
  refine ⟨by decide, fun hrelays => ?_⟩
  have hstays := hrelays.stays
  revert hstays
  decide

end NetWorker

end TitanBench
