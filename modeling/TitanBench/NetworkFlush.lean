import TitanBench.NetworkClose
import TitanBench.NetworkTables

/-!
# One flush, and one event

What `send` takes in the loop of `FlushWrite`, and everything the dispatch of an event can do.

* `flushBytes` — the bytes `send` accepts, in order; `flushLoop_backlog` says that they are the
  front of what was pending.
* `sendFails` — whether one of the calls fails, from the sizes of the chunks alone.
* `flushTarget` — the worker and the connection with which `FlushWrite` is called for an event.
* `Dispatched` — everything the dispatch of an event can do; `dispatch_dispatched`.
-/

namespace TitanBench

namespace NetWorker

/-! ## The loop of `FlushWrite` -/

/-- The bytes the queue holds beyond the sent offsets. -/
def backlog (chunks : List OutboundChunk) : Bytes :=
  chunks.flatMap fun chunk => chunk.data.drop chunk.sentOffset

/-- The bytes one call of `send` accepts of the front chunk. -/
def roundBytes (result : SendResult) (st : Flush) : Bytes :=
  match st.pending, result with
  | chunk :: _, .accepted n => (chunk.data.drop chunk.sentOffset).take n
  | _, _ => []

/-- The bytes the calls of `send` accept, in order. -/
def flushBytes : List SendResult → Flush → Bytes
  | [], _ => []
  | result :: results, st =>
    let round := flushRound result (popSent st)
    roundBytes result (popSent st) ++ if round.2 then flushBytes results round.1 else []

/-- One of the calls of `send` for chunks of these sizes fails. A chunk without remaining bytes is
not sent. -/
def sendFails : List SendResult → List ℕ → Bool
  | [], _ => false
  | result :: results, sizes =>
    match sizes.dropWhile (· = 0) with
    | [] => false
    | size :: rest =>
      match result with
      | .wouldBlock => false
      | .failed => true
      | .accepted n =>
        if min n size = 0 then true else sendFails results ((size - min n size) :: rest)

/-- The chunk after `send` has taken `n` of its bytes. -/
def advance (chunk : OutboundChunk) (n : ℕ) : OutboundChunk :=
  { chunk with sentOffset := chunk.sentOffset + min n (remaining chunk) }

/-- Everything one call of `send` can do. -/
theorem flushRound_cases (result : SendResult) (st : Flush) :
    (flushRound result st = (st, false) ∧ (st.pending = [] ∨ result = .wouldBlock)) ∨
    (∃ chunk rest, st.pending = chunk :: rest ∧
      flushRound result st = ({ st with failed := true }, false) ∧
      (result = .failed ∨ ∃ n, result = .accepted n ∧ min n (remaining chunk) = 0)) ∨
    ∃ chunk rest n, st.pending = chunk :: rest ∧ result = .accepted n ∧
      min n (remaining chunk) ≠ 0 ∧
      flushRound result st =
        ({ st with
            pending := advance chunk n :: rest
            bytes := st.bytes + min n (remaining chunk)
            ops := st.ops + 1 }, true) := by
  unfold flushRound
  cases hp : st.pending with
  | nil => exact .inl ⟨rfl, .inl rfl⟩
  | cons chunk rest =>
    cases result with
    | wouldBlock => exact .inl ⟨rfl, .inr rfl⟩
    | failed => exact .inr (.inl ⟨chunk, rest, rfl, rfl, .inl rfl⟩)
    | accepted n =>
      dsimp only
      by_cases hzero : min n (remaining chunk) = 0
      · rw [if_pos hzero]
        exact .inr (.inl ⟨chunk, rest, rfl, rfl, .inr ⟨n, rfl, hzero⟩⟩)
      · rw [if_neg hzero]
        exact .inr (.inr ⟨chunk, rest, n, rfl, rfl, hzero, rfl⟩)

theorem length_drop_sent (chunk : OutboundChunk) :
    (chunk.data.drop chunk.sentOffset).length = remaining chunk := List.length_drop

theorem remaining_advance (chunk : OutboundChunk) (n : ℕ) :
    remaining (advance chunk n) = remaining chunk - min n (remaining chunk) := by
  unfold remaining advance
  exact Nat.sub_add_eq _ _ _

theorem backlog_cons (chunk : OutboundChunk) (rest : List OutboundChunk) :
    backlog (chunk :: rest) = chunk.data.drop chunk.sentOffset ++ backlog rest := rfl

theorem backlog_concat (chunks : List OutboundChunk) (payload : Bytes) :
    backlog (chunks ++ [{ data := payload }]) = backlog chunks ++ payload := by
  simp [backlog]

/-- A chunk leaves the queue when nothing of it is left. -/
theorem popSent_backlog (st : Flush) : backlog (popSent st).pending = backlog st.pending := by
  have hdone : ∀ chunks : List OutboundChunk,
      backlog (chunks.dropWhile fun chunk => remaining chunk = 0) = backlog chunks := by
    intro chunks
    induction chunks with
    | nil => rfl
    | cons chunk rest ih =>
      by_cases h : remaining chunk = 0
      · have hempty : chunk.data.drop chunk.sentOffset = [] :=
          List.length_eq_zero_iff.mp ((length_drop_sent chunk).trans h)
        rw [List.dropWhile_cons_of_pos (by simpa using h), ih, backlog_cons, hempty,
          List.nil_append]
      · rw [List.dropWhile_cons_of_neg (by simpa using h)]
  exact hdone st.pending

/-- What a call accepts is the front of what is pending, and is counted. -/
theorem flushRound_backlog (result : SendResult) (st : Flush) :
    roundBytes result st ++ backlog (flushRound result st).1.pending = backlog st.pending ∧
      (flushRound result st).1.bytes = st.bytes + (roundBytes result st).length := by
  rcases flushRound_cases result st with ⟨hround, hno⟩ | ⟨chunk, rest, hp, hround, hno⟩ |
    ⟨chunk, rest, n, hp, rfl, -, hround⟩
  · have hnone : roundBytes result st = [] := by
      unfold roundBytes
      rcases hno with hp | rfl
      · rw [hp]
      · cases st.pending <;> rfl
    rw [hround, hnone]
    exact ⟨rfl, rfl⟩
  · have hnone : roundBytes result st = [] := by
      unfold roundBytes
      rw [hp]
      rcases hno with rfl | ⟨n, rfl, hzero⟩
      · rfl
      · rw [← length_drop_sent] at hzero
        exact List.length_eq_zero_iff.mp (by rw [List.length_take, hzero])
    rw [hround, hnone]
    exact ⟨rfl, rfl⟩
  · have htake : roundBytes (.accepted n) st = (chunk.data.drop chunk.sentOffset).take n := by
      unfold roundBytes
      rw [hp]
    have hsplit : (chunk.data.drop chunk.sentOffset).take n ++
        (advance chunk n).data.drop (advance chunk n).sentOffset =
          chunk.data.drop chunk.sentOffset := by
      unfold advance
      dsimp only
      rw [← List.drop_drop, ← length_drop_sent, List.take_eq_take_min]
      exact List.take_append_drop _ _
    rw [hround, htake]
    constructor
    · rw [hp, backlog_cons, backlog_cons, ← List.append_assoc, hsplit]
    · rw [List.length_take, length_drop_sent]

/-- **What `send` accepts is the front of what was pending**, and the rest stays pending. -/
theorem flushLoop_backlog (results : List SendResult) (st : Flush) :
    flushBytes results st ++ backlog (flushLoop results st).pending = backlog st.pending ∧
      (flushLoop results st).bytes = st.bytes + (flushBytes results st).length := by
  induction results generalizing st with
  | nil => exact ⟨popSent_backlog st, rfl⟩
  | cons result results ih =>
    obtain ⟨hround, hbytes⟩ := flushRound_backlog result (popSent st)
    have hpop : (popSent st).bytes = st.bytes := rfl
    unfold flushBytes flushLoop
    dsimp only
    by_cases hmore : (flushRound result (popSent st)).2 = true
    · obtain ⟨hrest, hcount⟩ := ih (flushRound result (popSent st)).1
      rw [if_pos hmore, if_pos hmore, List.append_assoc, hrest, hround, popSent_backlog]
      refine ⟨rfl, ?_⟩
      rw [hcount, hbytes, hpop, List.length_append, Nat.add_assoc]
    · rw [if_neg hmore, if_neg hmore, List.append_nil, hround, popSent_backlog, hbytes, hpop]
      exact ⟨rfl, rfl⟩

theorem flushLoop_failed (results : List SendResult) (st : Flush) (hst : st.failed = false) :
    (flushLoop results st).failed = sendFails results (st.pending.map remaining) := by
  induction results generalizing st with
  | nil => exact hst
  | cons result results ih =>
    have hsizes : (st.pending.map remaining).dropWhile (fun n => n = 0) =
        (popSent st).pending.map remaining := List.dropWhile_map ..
    have hpop : (popSent st).failed = false := hst
    unfold flushLoop sendFails
    rw [hsizes]
    generalize popSent st = st' at hpop
    rcases flushRound_cases result st' with ⟨hround, hno⟩ | ⟨chunk, rest, hp, hround, hno⟩ |
      ⟨chunk, rest, n, hp, rfl, hpos, hround⟩
    · rw [hround]
      rcases hno with hp | rfl
      · rw [hp]
        exact hpop
      · cases st'.pending <;> exact hpop
    · rw [hround, hp]
      rcases hno with rfl | ⟨n, rfl, hzero⟩
      · rfl
      · simp [hzero]
    · rw [hround, hp]
      have hrest := ih { st' with
        pending := advance chunk n :: rest
        bytes := st'.bytes + min n (remaining chunk)
        ops := st'.ops + 1 } hpop
      rw [List.map_cons, remaining_advance] at hrest
      simp only [List.map_cons, if_true, if_neg hpos]
      exact hrest

/-! ## One event -/

/-- The worker and the connection with which `FlushWrite` is called for the event. -/
def flushTarget (ev : ReadyEvent) (w : NetWorker) : Option (NetWorker × Connection) :=
  match w.fdToConn.lookup ev.fd with
  | none => none
  | some key =>
    match w.connections.lookup key with
    | none => none
    | some conn =>
      if ev.mask.epollErr || ev.mask.epollHup || ev.mask.epollRdHup then none
      else if ev.mask.epollOut then
        let w := w.completeIfConnecting conn ev.socketError
        if key ∉ w.connections then none else (w.connections.lookup conn.id).map (w, ·)
      else none

/-- What the completion of the connect makes of a connection that is not removed by it. -/
inductive Completed (id : ℕ) (w : NetWorker) (conn : Connection) : NetWorker → Connection → Prop
  | settled : ¬ (conn.type = .tcp ∧ conn.state = .connecting) → Completed id w conn w conn
  | connected : conn.type = .tcp → conn.state = .connecting →
      Completed id w conn
        ((w.setConnection id { conn with state := .connected }).modFd conn.fd
          (if conn.pendingSend = [] then readMask else readWriteMask))
        { conn with state := .connected }

/-- Everything the dispatch of an event can do. The first argument is the worker and the connection
with which `FlushWrite` is called, if it is. -/
inductive Dispatched (ev : ReadyEvent) (w : NetWorker) :
    Option (NetWorker × Connection) → NetWorker → Prop
  | unknown : Dispatched ev w none w
  | removed {id : ℕ} {conn : Connection} : w.connections.lookup id = some conn → conn.id = id →
      Dispatched ev w none (w.removeConnection id .ioFailed)
  | reads {id : ℕ} {conn : Connection} (recvs : List RecvResult) :
      w.connections.lookup id = some conn → conn.id = id →
      Dispatched ev w none (w.drainRead id recvs)
  | fails {id : ℕ} {conn conn' : Connection} {w' : NetWorker} {st : Flush} :
      w.connections.lookup id = some conn → conn.id = id → Completed id w conn w' conn' →
      flushLoop ev.sends { pending := conn'.pendingSend } = st →
      Dispatched ev w (some (w', conn')) ((w'.flushed id conn' st).removeConnection id .ioFailed)
  | flushes {id : ℕ} {conn conn' : Connection} {w' : NetWorker} {st : Flush}
      (recvs : List RecvResult) :
      w.connections.lookup id = some conn → conn.id = id → Completed id w conn w' conn' →
      flushLoop ev.sends { pending := conn'.pendingSend } = st →
      Dispatched ev w (some (w', conn'))
        (((w'.flushed id conn' st).modFd conn'.fd
          (if st.pending = [] then readMask else readWriteMask)).drainRead id recvs)

section Dispatch

variable {w : NetWorker} {id : ℕ} {conn : Connection}

theorem flushed_lookup (w : NetWorker) (id : ℕ) (conn : Connection) (st : Flush) :
    (w.flushed id conn st).connections.lookup id = some { conn with pendingSend := st.pending } :=
  AList.lookup_insert w.connections

theorem Completed.lookup {w' : NetWorker} {conn' : Connection} (h : Completed id w conn w' conn')
    (hl : w.connections.lookup id = some conn) : w'.connections.lookup id = some conn' := by
  cases h with
  | settled _ => exact hl
  | connected _ _ =>
    rw [modFd_connections]
    exact lookup_setConnection w id _

theorem Completed.id_eq {w' : NetWorker} {conn' : Connection} (h : Completed id w conn w' conn') :
    conn'.id = conn.id := by
  cases h <;> rfl

theorem Completed.pendingSend {w' : NetWorker} {conn' : Connection}
    (h : Completed id w conn w' conn') : conn'.pendingSend = conn.pendingSend := by
  cases h <;> rfl

theorem Completed.fd {w' : NetWorker} {conn' : Connection} (h : Completed id w conn w' conn') :
    conn'.fd = conn.fd := by
  cases h <;> rfl

@[simp] theorem modFd_fdToConn (w : NetWorker) (fd : Option ℕ) (mask : EpollMask) :
    (w.modFd fd mask).fdToConn = w.fdToConn := by
  cases fd <;> rfl

theorem Completed.fdToConn {w' : NetWorker} {conn' : Connection}
    (h : Completed id w conn w' conn') : w'.fdToConn = w.fdToConn := by
  cases h with
  | settled _ => rfl
  | connected _ _ => exact modFd_fdToConn _ _ _

/-- A connect that has failed. -/
def ConnectFails (conn : Connection) (e : SocketError) : Prop :=
  (conn.type = .tcp ∧ conn.state = .connecting) ∧ e ≠ .none

/-- The connect completes, or the connection is removed. -/
theorem completeIfConnecting_cases (hl : w.connections.lookup id = some conn) (hid : conn.id = id)
    (e : SocketError) :
    (ConnectFails conn e ∧ w.completeIfConnecting conn e = w.removeConnection id .ioFailed) ∨
      (¬ ConnectFails conn e ∧
        ∃ conn', Completed id w conn (w.completeIfConnecting conn e) conn') := by
  unfold completeIfConnecting ConnectFails
  by_cases hc : conn.type = .tcp ∧ conn.state = .connecting
  · have hopen : ¬ (conn.type ≠ .tcp ∨ conn.state ≠ .connecting) := by simp [hc]
    rw [if_pos hc, hid]
    unfold completeTcpConnect
    rw [hl]
    dsimp only
    rw [if_neg hopen]
    cases e with
    | none => exact .inr ⟨fun h => h.2 rfl, _, .connected hc.1 hc.2⟩
    | reported => exact .inl ⟨⟨hc, by decide⟩, rfl⟩
    | unavailable => exact .inl ⟨⟨hc, by decide⟩, rfl⟩
  · rw [if_neg hc]
    exact .inr ⟨fun h => hc h.1, conn, .settled hc⟩

/-- A flush ends with the removal of the connection, or with a new interest mask. -/
theorem flushWrite_cases (hl : w.connections.lookup id = some conn) (sends : List SendResult) :
    w.flushWrite id sends =
        (w.flushed id conn (flushLoop sends { pending := conn.pendingSend })).removeConnection id
          .ioFailed ∨
      w.flushWrite id sends =
        (w.flushed id conn (flushLoop sends { pending := conn.pendingSend })).modFd conn.fd
          (if (flushLoop sends { pending := conn.pendingSend }).pending = [] then readMask
            else readWriteMask) := by
  unfold flushWrite
  rw [hl]
  dsimp only
  by_cases hfail : (flushLoop sends { pending := conn.pendingSend }).failed = true
  · rw [if_pos hfail]
    exact .inl rfl
  · rw [if_neg hfail]
    exact .inr rfl

/-- **The inversion of the dispatch.** -/
theorem dispatch_dispatched (h : w.WellKeyed) (ev : ReadyEvent) :
    Dispatched ev w (w.flushTarget ev) (w.dispatch ev) := by
  unfold flushTarget dispatch
  cases w.fdToConn.lookup ev.fd with
  | none => exact .unknown
  | some key =>
    dsimp only
    cases hl : w.connections.lookup key with
    | none => exact .unknown
    | some conn =>
      have hid : conn.id = key := h key conn hl
      dsimp only
      by_cases hhang : (ev.mask.epollErr || ev.mask.epollHup || ev.mask.epollRdHup) = true
      · rw [if_pos hhang, if_pos hhang, hid]
        exact .removed hl hid
      · rw [if_neg hhang, if_neg hhang]
        unfold dispatchOut
        by_cases hout : ev.mask.epollOut = true
        · rw [if_pos hout, if_pos hout]
          dsimp only
          rcases completeIfConnecting_cases hl hid ev.socketError with
            ⟨-, hgone⟩ | ⟨-, conn', hdone⟩
          · have hnot : key ∉ (w.removeConnection key .ioFailed).connections :=
              AList.lookup_eq_none.mp (removeConnection_lookup w key .ioFailed)
            rw [hgone, if_pos hnot, if_pos hnot, if_pos hnot]
            exact .removed hl hid
          · generalize w.completeIfConnecting conn ev.socketError = w' at hdone
            have hl' := hdone.lookup hl
            have hmem : ¬ key ∉ w'.connections := not_not.mpr (mem_of_lookup hl')
            rw [if_neg hmem, if_neg hmem, hid, hl', Option.map_some]
            rcases flushWrite_cases hl' ev.sends with hflush | hflush
            · rw [hflush,
                if_pos (AList.lookup_eq_none.mp (removeConnection_lookup _ key .ioFailed))]
              exact .fails hl hid hdone rfl
            · have hstays : key ∈ (w'.flushWrite key ev.sends).connections := by
                rw [hflush, modFd_connections]
                exact (AList.mem_insert _).mpr (.inl rfl)
              rw [if_neg (not_not.mpr hstays), hflush]
              by_cases hin : ev.mask.epollIn = true
              · rw [if_pos hin]
                exact .flushes ev.recvs hl hid hdone rfl
              · rw [if_neg hin]
                exact .flushes [] hl hid hdone rfl
        · rw [if_neg hout, if_neg hout, if_neg (not_not.mpr (mem_of_lookup hl))]
          split_ifs
          · rw [hid]
            exact .reads ev.recvs hl hid
          · exact .reads [] hl hid

end Dispatch

end NetWorker

end TitanBench
