import TitanBench.NetworkFlush
import TitanBench.NetworkSteps

/-!
# What the dispatch reads

The dispatch of an event holds two iterators, `id_it` into `fd_to_conn` and `conn_it` into
`connections`, and reads through them again after calls that may remove the connection.

**The reads** (`accesses`). Each read with the worker as it is at that moment, in the order of the
source. A read is valid while what it goes through is still in its table.

**What is wrong.** `RemoveConnection` erases the entry of `fd_to_conn` too, and the check whether
the connection is still there reads its id from that entry. So a failure in the `EPOLLOUT` branch,
of the connect or of a `send`, is always followed by a read of an erased entry.

Main result: `accesses_valid_iff`.
-/

namespace TitanBench

namespace NetWorker

/-! ## The reads -/

/-- `id_it->second`, the entry of a descriptor, or `conn`, the connection with an id. -/
inductive Access
  | entry (fd : ℕ)
  | conn (id : ℕ)

/-- What is read is still there. -/
def Access.Valid (a : Access) (w : NetWorker) : Prop :=
  match a with
  | .entry fd => fd ∈ w.fdToConn
  | .conn id => id ∈ w.connections

instance (a : Access) (w : NetWorker) : Decidable (a.Valid w) := by
  cases a <;> unfold Access.Valid <;> infer_instance

/-- `CompleteTcpConnect`: the state is looked at, and set when the connect succeeded. -/
def completeAccesses (id : ℕ) (conn : Connection) (socketError : SocketError) (w : NetWorker) :
    List (NetWorker × Access) :=
  (w, .conn id) ::
    if socketError = .none then [(w.setConnection id { conn with state := .connected }, .conn id)]
    else []

/-- The loop of `FlushWrite`, and the line behind it. -/
def flushAccesses (id : ℕ) (conn : Connection) (w : NetWorker) :
    List SendResult → Flush → List (NetWorker × Access)
  | [], st => [(w.flushed id conn st, .conn id)]
  | result :: results, st =>
    let round := flushRound result (popSent st)
    (w.flushed id conn st, .conn id) ::
      if round.2 then flushAccesses id conn w results round.1
      else [(w.flushed id conn round.1, .conn id)]

/-- The loop of `DrainRead`. -/
def drainAccesses (id : ℕ) : List RecvResult → NetWorker → List (NetWorker × Access)
  | .data (b :: bytes) :: results, w =>
    (w, .conn id) :: drainAccesses id results (w.received id (b :: bytes))
  | _, w => [(w, .conn id)]

/-- The `EPOLLOUT` branch for the connection `conn` found under `key`. -/
def outAccesses (key : ℕ) (conn : Connection) (ev : ReadyEvent) (w : NetWorker) :
    List (NetWorker × Access) :=
  if ev.mask.epollOut then
    let w' := w.completeIfConnecting conn ev.socketError
    (w, .conn key) ::
      (if conn.type = .tcp ∧ conn.state = .connecting then
          completeAccesses key conn ev.socketError w ++ [(w', .entry ev.fd)]
        else []) ++
      match w'.connections.lookup key with
      | none => []
      | some conn' =>
        flushAccesses key conn' w' ev.sends { pending := conn'.pendingSend } ++
          [(w'.flushWrite conn.id ev.sends, .entry ev.fd)]
  else []

/-- The dispatch of one event. -/
def accesses (ev : ReadyEvent) (w : NetWorker) : List (NetWorker × Access) :=
  match w.fdToConn.lookup ev.fd with
  | none => []
  | some key =>
    (w, .entry ev.fd) ::
      match w.connections.lookup key with
      | none => []
      | some conn =>
        if ev.mask.epollErr || ev.mask.epollHup || ev.mask.epollRdHup then [(w, .conn key)]
        else
          let w' := w.dispatchOut key conn ev
          w.outAccesses key conn ev ++
            if key ∈ w'.connections ∧ ev.mask.epollIn = true then drainAccesses key ev.recvs w'
            else []

/-- All reads are valid. -/
def ReadsValid (accs : List (NetWorker × Access)) : Prop := ∀ x ∈ accs, x.2.Valid x.1

instance (accs : List (NetWorker × Access)) : Decidable (ReadsValid accs) := by
  unfold ReadsValid
  infer_instance

theorem readsValid_append {accs accs' : List (NetWorker × Access)} :
    ReadsValid (accs ++ accs') ↔ ReadsValid accs ∧ ReadsValid accs' := List.forall_mem_append

theorem readsValid_cons {x : NetWorker × Access} {accs : List (NetWorker × Access)} :
    ReadsValid (x :: accs) ↔ x.2.Valid x.1 ∧ ReadsValid accs := List.forall_mem_cons

theorem readsValid_nil : ReadsValid [] := by
  intro x hx
  cases hx

/-! ## When a write fails -/

/-- The connect has failed, or a `send` fails. -/
def WriteFails (conn : Connection) (ev : ReadyEvent) : Prop :=
  ev.mask.epollOut = true ∧
    (ConnectFails conn ev.socketError ∨ sendFails ev.sends (conn.pendingSend.map remaining) = true)

/-- The event finds a connection, has no bit of a hang-up, and its write fails. -/
def WriteRemoves (ev : ReadyEvent) (w : NetWorker) : Prop :=
  ∃ key conn, w.fdToConn.lookup ev.fd = some key ∧ w.connections.lookup key = some conn ∧
    (ev.mask.epollErr || ev.mask.epollHup || ev.mask.epollRdHup) = false ∧ WriteFails conn ev

/-! ## Routes -/

section Routes

variable {w : NetWorker} {id fd : ℕ} {conn : Connection}

/-- The route of a connection goes with it. -/
theorem removeConnection_noRoute (h : w.connections.lookup id = some conn)
    (hfd : conn.fd = some fd) (err : NetErrc) : fd ∉ (w.removeConnection id err).fdToConn := by
  have hroute : (w.removeConnection id err).fdToConn = w.fdToConn.erase fd := by
    unfold removeConnection
    rw [h]
    dsimp only
    rw [hfd]
    split_ifs <;> rfl
  rw [hroute]
  exact fun hmem => (AList.mem_erase.mp hmem).1 rfl

theorem flushWrite_route (h : w.connections.lookup id = some conn) (hfd : conn.fd = some fd)
    (sends : List SendResult) :
    sendFails sends (conn.pendingSend.map remaining) = false ∧
        (w.flushWrite id sends).fdToConn = w.fdToConn ∨
      sendFails sends (conn.pendingSend.map remaining) = true ∧
        fd ∉ (w.flushWrite id sends).fdToConn := by
  have hfailed := flushLoop_failed sends { pending := conn.pendingSend } rfl
  unfold flushWrite
  rw [h]
  dsimp only
  rw [hfailed]
  cases hf : sendFails sends (conn.pendingSend.map remaining) with
  | false =>
    refine .inl ⟨rfl, ?_⟩
    rw [if_neg Bool.false_ne_true, modFd_fdToConn]
    rfl
  | true =>
    refine .inr ⟨rfl, ?_⟩
    rw [if_pos rfl]
    exact removeConnection_noRoute (flushed_lookup w id conn _) hfd _

end Routes

/-! ## Valid reads -/

section Valid

variable {w : NetWorker} {id : ℕ} {conn : Connection}

theorem completeAccesses_valid (h : w.connections.lookup id = some conn) (e : SocketError) :
    ReadsValid (completeAccesses id conn e w) := by
  refine readsValid_cons.mpr ⟨mem_of_lookup h, ?_⟩
  split_ifs
  · exact readsValid_cons.mpr ⟨(AList.mem_insert _).mpr (.inl rfl), readsValid_nil⟩
  · exact readsValid_nil

theorem flushAccesses_valid (results : List SendResult) (st : Flush) :
    ReadsValid (flushAccesses id conn w results st) := by
  have hmem : ∀ st, Access.Valid (.conn id) (w.flushed id conn st) :=
    fun st => (AList.mem_insert _).mpr (.inl rfl)
  induction results generalizing st with
  | nil => exact readsValid_cons.mpr ⟨hmem st, readsValid_nil⟩
  | cons result results ih =>
    refine readsValid_cons.mpr ⟨hmem st, ?_⟩
    split_ifs
    · exact ih _
    · exact readsValid_cons.mpr ⟨hmem _, readsValid_nil⟩

theorem drainAccesses_valid (results : List RecvResult) (h : id ∈ w.connections) :
    ReadsValid (drainAccesses id results w) := by
  have hone : ReadsValid [(w, .conn id)] := readsValid_cons.mpr ⟨h, readsValid_nil⟩
  induction results generalizing w with
  | nil => exact hone
  | cons result results ih =>
    cases result with
    | wouldBlock => exact hone
    | failed => exact hone
    | data bytes =>
      cases bytes with
      | nil => exact hone
      | cons b bytes =>
        have hnext : id ∈ (w.received id (b :: bytes)).connections := h
        exact readsValid_cons.mpr
          ⟨h, ih hnext (readsValid_cons.mpr ⟨hnext, readsValid_nil⟩)⟩

/-- In the `EPOLLOUT` branch the reads are valid exactly when the write does not fail. -/
theorem outAccesses_valid_iff {ev : ReadyEvent} (h : w.connections.lookup id = some conn)
    (hid : conn.id = id) (hfd : conn.fd = some ev.fd) (hroute : ev.fd ∈ w.fdToConn) :
    ReadsValid (w.outAccesses id conn ev) ↔ ¬ WriteFails conn ev := by
  unfold outAccesses WriteFails
  by_cases hout : ev.mask.epollOut = true
  · rw [if_pos hout]
    dsimp only
    rw [readsValid_append, readsValid_cons]
    rcases completeIfConnecting_cases h hid ev.socketError with
      ⟨hfails, hgone⟩ | ⟨hok, conn', hdone⟩
    · -- The check after `CompleteTcpConnect` reads an erased entry.
      constructor
      · rintro ⟨⟨-, hchecked⟩, -⟩
        rw [if_pos hfails.1, readsValid_append] at hchecked
        have hentry := hchecked.2 _ (List.mem_singleton_self _)
        rw [hgone] at hentry
        exact absurd hentry (removeConnection_noRoute h hfd _)
      · intro hno
        exact absurd ⟨hout, .inl hfails⟩ hno
    · have hl' := hdone.lookup h
      have hroute' : ev.fd ∈ (w.completeIfConnecting conn ev.socketError).fdToConn := by
        rw [hdone.fdToConn]
        exact hroute
      have hflush := flushWrite_route hl' (hdone.fd.trans hfd) ev.sends
      rw [hdone.pendingSend] at hflush
      rw [hl', hid]
      dsimp only
      rw [readsValid_append]
      constructor
      · rintro ⟨-, -, hlast⟩ ⟨-, hbad | hbad⟩
        · exact hok hbad
        · -- The check after `FlushWrite` reads an erased entry.
          rcases hflush with ⟨hfine, -⟩ | ⟨-, hgone⟩
          · rw [hfine] at hbad
            cases hbad
          · exact hgone (hlast _ (List.mem_singleton_self _))
      · intro hno
        refine ⟨⟨mem_of_lookup h, ?_⟩, flushAccesses_valid _ _, ?_⟩
        · split_ifs
          · exact readsValid_append.mpr ⟨completeAccesses_valid h _,
              readsValid_cons.mpr ⟨hroute', readsValid_nil⟩⟩
          · exact readsValid_nil
        · refine readsValid_cons.mpr ⟨?_, readsValid_nil⟩
          rcases hflush with ⟨-, hsame⟩ | ⟨hbad, -⟩
          · rw [← hsame] at hroute'
            exact hroute'
          · exact absurd ⟨hout, .inr hbad⟩ hno
  · rw [if_neg hout]
    exact ⟨fun _ hw => hout hw.1, fun _ => readsValid_nil⟩

/-- In one dispatch the reads are valid exactly when no write removes the connection. -/
theorem accesses_iff (h : w.Consistent) (ev : ReadyEvent) :
    ReadsValid (w.accesses ev) ↔ ¬ w.WriteRemoves ev := by
  unfold accesses WriteRemoves
  cases hroute : w.fdToConn.lookup ev.fd with
  | none =>
    refine ⟨fun _ hw => ?_, fun _ => readsValid_nil⟩
    obtain ⟨key, conn, hkey, -⟩ := hw
    cases hkey
  | some key =>
    obtain ⟨conn, hl, hfd⟩ := h.route ev.fd key hroute
    have hid : conn.id = key := (h.linked key conn hl).keyed
    have hmem : ev.fd ∈ w.fdToConn := AList.lookup_isSome.mp (by rw [hroute]; rfl)
    have hthis : (∃ key' conn', some key = some key' ∧ w.connections.lookup key' = some conn' ∧
        (ev.mask.epollErr || ev.mask.epollHup || ev.mask.epollRdHup) = false ∧
          WriteFails conn' ev) ↔
        (ev.mask.epollErr || ev.mask.epollHup || ev.mask.epollRdHup) = false ∧
          WriteFails conn ev := by
      constructor
      · rintro ⟨key', conn', hkey, hconn, hrest⟩
        cases hkey
        rw [hl] at hconn
        cases hconn
        exact hrest
      · intro hrest
        exact ⟨key, conn, rfl, hl, hrest⟩
    dsimp only
    rw [hthis, hl, readsValid_cons]
    dsimp only
    by_cases hhang : (ev.mask.epollErr || ev.mask.epollHup || ev.mask.epollRdHup) = true
    · rw [if_pos hhang]
      constructor
      · rintro - ⟨hno, -⟩
        rw [hhang] at hno
        cases hno
      · intro _
        exact ⟨hmem, readsValid_cons.mpr ⟨mem_of_lookup hl, readsValid_nil⟩⟩
    · rw [if_neg hhang, readsValid_append, outAccesses_valid_iff hl hid hfd hmem]
      have hrest : ReadsValid (if key ∈ (w.dispatchOut key conn ev).connections ∧
          ev.mask.epollIn = true then
            drainAccesses key ev.recvs (w.dispatchOut key conn ev) else []) := by
        split_ifs with hin
        · exact drainAccesses_valid _ hin.1
        · exact readsValid_nil
      constructor
      · rintro ⟨-, hok, -⟩ ⟨-, hbad⟩
        exact hok hbad
      · intro hno
        exact ⟨hmem, fun hbad => hno ⟨Bool.eq_false_iff.mpr hhang, hbad⟩, hrest⟩

end Valid

/-! ## Runs -/

/-- **Exactly when the dispatch reads no erased entry.** In every run in which `socket` returns
only descriptors that are not open, all reads of all dispatches are valid if and only if no event
without a bit of a hang-up finds that its connect has failed or makes a `send` fail. -/
theorem accesses_valid_iff (steps : List Step) (hfresh : Polling.FreshSteps {} steps) :
    (∀ x ∈ Polling.visits {} steps, ∀ ev ∈ x.2.dispatched, ReadsValid (x.1.net.accesses ev)) ↔
      ∀ x ∈ Polling.visits {} steps, ∀ ev ∈ x.2.dispatched, ¬ x.1.net.WriteRemoves ev := by
  have hconsistent : ∀ x ∈ Polling.visits {} steps, x.1.net.Consistent := by
    intro x hx
    obtain ⟨before, after, hsteps, hstate⟩ := Mealy.mem_visits hx
    rw [hsteps] at hfresh
    rw [hstate]
    exact Polling.consistent_run (.empty rfl rfl) (Polling.freshSteps_append.mp hfresh).1
  constructor
  · intro hall x hx ev hev
    exact (accesses_iff (hconsistent x hx) ev).mp (hall x hx ev hev)
  · intro hall x hx ev hev
    exact (accesses_iff (hconsistent x hx) ev).mpr (hall x hx ev hev)

/-- A connect to descriptor 5 is in progress, with three bytes to send, when the event arrives. -/
def connectingSteps (ev : ReadyEvent) : List Step :=
  [.start {}, .submit (.createTcp 0 { host := ascii "h", port := 80 } 3000) {},
    .submit (.send 1 (ascii "abc")) {}, .take,
    .execute fun _ => { socketFd := some 5, connect := .inProgress }, .execute fun _ => {},
    .dispatch ev]

/-- The connect has succeeded, and `send` takes two of the bytes. -/
def halfSent : ReadyEvent :=
  { fd := 5, mask := { epollOut := true }, sends := [.accepted 2, .wouldBlock] }

theorem accesses_valid_iff_halfSent :
    (∀ x ∈ Polling.visits {} (connectingSteps halfSent), ∀ ev ∈ x.2.dispatched,
      ReadsValid (x.1.net.accesses ev)) ∧
    ∀ x ∈ Polling.visits {} (connectingSteps halfSent), ∀ ev ∈ x.2.dispatched,
      ¬ x.1.net.WriteRemoves ev := by
  have hvalid : ∀ x ∈ Polling.visits {} (connectingSteps halfSent), ∀ ev ∈ x.2.dispatched,
      ReadsValid (x.1.net.accesses ev) := by decide
  exact ⟨hvalid, (accesses_valid_iff (connectingSteps halfSent) (by decide)).mp hvalid⟩

/-- The connect was refused. -/
def refusedConnect : ReadyEvent :=
  { fd := 5, mask := { epollOut := true }, socketError := .reported }

/-- A refused connect is enough to read an erased entry. -/
theorem accesses_erased :
    ¬ ∀ (steps : List Step), Polling.FreshSteps {} steps →
      ∀ x ∈ Polling.visits {} steps, ∀ ev ∈ x.2.dispatched, ReadsValid (x.1.net.accesses ev) := by
  intro hall
  have hvalid := hall (connectingSteps refusedConnect) (by decide)
  revert hvalid
  decide

end NetWorker

end TitanBench
