import TitanBench.NetworkClose
import TitanBench.NetworkDeeds

/-!
# The life of a connection, as its events tell it

The user of a worker learns about a connection only from the events that carry its id. `Life` is
the protocol they follow: the connection may be entered, then data arrives, then it is closed, or
one error reports its removal; each `Send` without a connection is answered by one
`kConnectionNotFound`.

* `Life` — the protocol, as the shape of what happens to one id; `Life.miss` to `Life.fail` extend
  it.
* `Polling.notices` — what happens to an id in one step of the worker.
* `Polling.life_step`, `Polling.life_run` — every step and every run follows the protocol.
* `Polling.event_protocol` — the main result: every run, together with the ids given out and the
  bytes received.
-/

namespace TitanBench

/-- The connection a `Send` is for. -/
def Command.sendTo : Command → Option ℕ
  | .send id _ => some id
  | _ => none

namespace NetWorker

/-- What happens to one id: its connection is entered in the table, a `Send` for it is executed, an
event with the id is emitted, the connection is closed by `Close` or `Stop`, or it is removed in
another way. -/
inductive Notice
  | entered
  | send
  | event (ev : RecvEvent)
  | closed
  | removed
  deriving DecidableEq

/-! ## The protocol -/

/-- `n` times: a `Send` finds no connection. -/
def misses (id n : ℕ) : List Notice :=
  (List.replicate n [Notice.send, .event (failure id .connectionNotFound)]).flatten

/-- What happens while the connection is in the table: its `Send`s and its data. -/
def Alive (id : ℕ) (notices : List Notice) : Prop :=
  ∀ x ∈ notices, x = .send ∨ ∃ bytes, bytes ≠ [] ∧ x = .event (dataEvent id bytes)

inductive Stage
  | waiting
  | present
  | gone
  deriving DecidableEq

/-- The whole life of an id, up to a stage of it. -/
inductive Life (id : ℕ) : Stage → List Notice → Prop
  | waiting (n : ℕ) : Life id .waiting (misses id n)
  | present (n : ℕ) {alive : List Notice} :
      Alive id alive → Life id .present (misses id n ++ .entered :: alive)
  | closed (n m : ℕ) {alive : List Notice} :
      Alive id alive →
      Life id .gone (misses id n ++ .entered :: alive ++ .closed :: misses id m)
  | removed (n m : ℕ) {alive : List Notice} {err : NetErrc} :
      Alive id alive → err ≠ .ok → err ≠ .connectionNotFound →
      Life id .gone
        (misses id n ++ .entered :: alive ++ .event (failure id err) :: .removed :: misses id m)

theorem misses_succ (id n : ℕ) :
    misses id (n + 1) = misses id n ++ [.send, .event (failure id .connectionNotFound)] := by
  unfold misses
  rw [List.replicate_succ', List.flatten_append, List.flatten_singleton]

theorem Alive.append {id : ℕ} {l l' : List Notice} (h : Alive id l) (h' : Alive id l') :
    Alive id (l ++ l') :=
  List.forall_mem_append.mpr ⟨h, h'⟩

theorem alive_nil (id : ℕ) : Alive id [] := fun _ h => absurd h List.not_mem_nil

theorem alive_send (id : ℕ) : Alive id [.send] := fun _ h => .inl (List.mem_singleton.mp h)

namespace Life

variable {id : ℕ} {stage : Stage} {notices alive : List Notice}

theorem miss (h : Life id stage notices) (hstage : stage ≠ .present) :
    Life id stage (notices ++ [.send, .event (failure id .connectionNotFound)]) := by
  cases h with
  | waiting n =>
    rw [← misses_succ]
    exact .waiting (n + 1)
  | present n _ => exact absurd rfl hstage
  | closed n m halive =>
    rw [List.append_assoc, List.cons_append, ← misses_succ]
    exact .closed n (m + 1) halive
  | removed n m halive herr hfound =>
    rw [List.append_assoc, List.cons_append, List.cons_append, ← misses_succ]
    exact .removed n (m + 1) halive herr hfound

theorem enter (h : Life id .waiting notices) : Life id .present (notices ++ [.entered]) := by
  cases h with
  | waiting n => exact .present n (alive_nil id)

theorem go (h : Life id .present notices) (halive : Alive id alive) :
    Life id .present (notices ++ alive) := by
  cases h with
  | present n hbefore =>
    rw [List.append_assoc, List.cons_append]
    exact .present n (hbefore.append halive)

theorem close (h : Life id .present notices) : Life id .gone (notices ++ [.closed]) := by
  cases h with
  | present n halive => exact .closed n 0 halive

theorem fail (h : Life id .present notices) {err : NetErrc} (herr : err ≠ .ok)
    (hfound : err ≠ .connectionNotFound) :
    Life id .gone (notices ++ [.event (failure id err), .removed]) := by
  cases h with
  | present n halive => exact .removed n 0 halive herr hfound

end Life

/-! ## What a part of a poll tells about one id -/

/-- The events that carry the id. -/
def ofId (id : ℕ) (events : List RecvEvent) : List RecvEvent :=
  events.filter fun ev => ev.connId = id

/-- The connection was not in the table and is not, stays in it, or leaves it: what the events
`events`, emitted on the way from `w` to `w'`, tell about it. -/
inductive Tells (id : ℕ) (w w' : NetWorker) (events : List RecvEvent) : Prop
  | absent :
      id ∉ w.connections → id ∉ w'.connections → ofId id events = [] → Tells id w w' events
  | stays :
      id ∈ w.connections → id ∈ w'.connections → Alive id ((ofId id events).map .event) →
      Tells id w w' events
  | leaves {data : List RecvEvent} {err : NetErrc} :
      id ∈ w.connections → id ∉ w'.connections → Alive id (data.map .event) →
      err ≠ .ok → err ≠ .connectionNotFound → ofId id events = data ++ [failure id err] →
      Tells id w w' events

theorem ofId_append (id : ℕ) (l l' : List RecvEvent) :
    ofId id (l ++ l') = ofId id l ++ ofId id l' :=
  List.filter_append ..

theorem Tells.trans {id : ℕ} {w w' w'' : NetWorker} {l l' : List RecvEvent} (h : Tells id w w' l)
    (h' : Tells id w' w'' l') : Tells id w w'' (l ++ l') := by
  cases h with
  | absent hout hout' hnone =>
    cases h' with
    | absent _ hout'' hnone' => exact .absent hout hout'' (by rw [ofId_append, hnone, hnone']; rfl)
    | stays hin _ _ => exact absurd hin hout'
    | leaves hin _ _ _ _ _ => exact absurd hin hout'
  | stays hin hin' hdata =>
    cases h' with
    | absent hout' _ _ => exact absurd hin' hout'
    | stays _ hin'' hdata' =>
      refine .stays hin hin'' ?_
      rw [ofId_append, List.map_append]
      exact hdata.append hdata'
    | @leaves data err _ hout'' hdata' herr hfound hall =>
      refine @Tells.leaves _ _ _ _ (ofId id l ++ data) err hin hout'' ?_ herr hfound ?_
      · rw [List.map_append]
        exact hdata.append hdata'
      · rw [ofId_append, hall, List.append_assoc]
  | @leaves data err hin hout' hdata herr hfound hall =>
    cases h' with
    | absent _ hout'' hnone =>
      exact .leaves hin hout'' hdata herr hfound (by rw [ofId_append, hall, hnone, List.append_nil])
    | stays hin' _ _ => exact absurd hin' hout'
    | leaves hin' _ _ _ _ _ => exact absurd hin' hout'

/-- Nothing is emitted for the id, and it is in the table or not as before. -/
theorem tells_other {w w' : NetWorker} {id : ℕ} {events : List RecvEvent}
    (hconn : id ∈ w'.connections ↔ id ∈ w.connections) (hnone : ofId id events = []) :
    Tells id w w' events := by
  by_cases hid : id ∈ w.connections
  · refine .stays hid (hconn.mpr hid) ?_
    rw [hnone]
    exact alive_nil id
  · exact .absent hid (fun h => hid (hconn.mp h)) hnone

/-- The bytes of the data events. -/
def dataBytes (events : List RecvEvent) : ℕ :=
  ((events.filter fun ev => !ev.isError).map (·.data.length)).sum

theorem dataBytes_append (l l' : List RecvEvent) :
    dataBytes (l ++ l') = dataBytes l + dataBytes l' := by
  unfold dataBytes
  rw [List.filter_append, List.map_append, List.sum_append]

theorem drop_of_log {w w' : NetWorker} {events : List RecvEvent}
    (h : w'.recvEvents = w.recvEvents ++ events) :
    w'.recvEvents.drop w.recvEvents.length = events := by
  rw [h, List.drop_left]

/-- The events emitted on the way, what they tell about each id, and the bytes they hand on. -/
structure Reports (w w' : NetWorker) (events : List RecvEvent) : Prop where
  log : w'.recvEvents = w.recvEvents ++ events
  tells : ∀ id, Tells id w w' events
  bytes : w'.bytesReceived = w.bytesReceived + dataBytes events

theorem Reports.trans {w w' w'' : NetWorker} {l l' : List RecvEvent} (h : Reports w w' l)
    (h' : Reports w' w'' l') : Reports w w'' (l ++ l') := by
  refine ⟨?_, fun id => (h.tells id).trans (h'.tells id), ?_⟩
  · rw [h'.log, h.log, List.append_assoc]
  · rw [h'.bytes, h.bytes, dataBytes_append, Nat.add_assoc]

theorem reports_nil {w w' : NetWorker} (hlog : w'.recvEvents = w.recvEvents)
    (hconn : ∀ id, id ∈ w'.connections ↔ id ∈ w.connections)
    (hbytes : w'.bytesReceived = w.bytesReceived) : Reports w w' [] :=
  ⟨by rw [hlog, List.append_nil], fun id => tells_other (hconn id) rfl, hbytes⟩

theorem mem_setConnection {w : NetWorker} {id : ℕ} {old : Connection}
    (hl : w.connections.lookup id = some old) (conn : Connection) (k : ℕ) :
    k ∈ (w.setConnection id conn).connections ↔ k ∈ w.connections := by
  show k ∈ w.connections.insert id conn ↔ _
  rw [AList.mem_insert]
  exact ⟨fun hk => hk.elim (fun heq => heq ▸ mem_of_lookup hl) fun hk => hk, .inr⟩

theorem reports_received {w : NetWorker} {id : ℕ} {bytes : Bytes} (hmem : id ∈ w.connections)
    (hbytes : bytes ≠ []) : Reports w (w.received id bytes) [dataEvent id bytes] := by
  refine ⟨rfl, fun k => ?_, by simp [received, pushEvent, dataBytes, dataEvent]⟩
  by_cases hk : id = k
  · subst hk
    refine .stays hmem hmem ?_
    have hmine : ofId id [dataEvent id bytes] = [dataEvent id bytes] := by simp [ofId, dataEvent]
    rw [hmine]
    exact fun x hx => .inr ⟨bytes, hbytes, List.mem_singleton.mp hx⟩
  · exact tells_other Iff.rfl (by simp [ofId, dataEvent, hk])

theorem removeConnection_bytesReceived (w : NetWorker) (id : ℕ) (err : NetErrc) :
    (w.removeConnection id err).bytesReceived = w.bytesReceived := by
  have hrelease : ∀ fd, (w.releaseFd fd).bytesReceived = w.bytesReceived := by
    intro fd
    cases fd <;> rfl
  unfold removeConnection
  cases w.connections.lookup id with
  | none => rfl
  | some conn =>
    dsimp only
    split_ifs <;> exact hrelease conn.fd

theorem reports_removeConnection {w : NetWorker} {id : ℕ} {conn : Connection} {err : NetErrc}
    (hl : w.connections.lookup id = some conn) (hid : conn.id = id) (herr : err ≠ .ok)
    (hfound : err ≠ .connectionNotFound) :
    Reports w (w.removeConnection id err) [failure id err] := by
  refine ⟨removeConnection_failure hl hid herr, fun k => ?_, ?_⟩
  · have hconn := removeConnection_connections w id err
    by_cases hk : k = id
    · subst hk
      refine @Tells.leaves _ _ _ _ [] err (mem_of_lookup hl) ?_ (alive_nil k) herr hfound ?_
      · rw [hconn]
        exact fun h => (AList.mem_erase.mp h).1 rfl
      · simp [ofId, failure]
    · refine tells_other ?_ (by simp [ofId, failure, Ne.symm hk])
      rw [hconn]
      exact ⟨fun h => (AList.mem_erase.mp h).2, fun h => AList.mem_erase.mpr ⟨hk, h⟩⟩
  · rw [removeConnection_bytesReceived]
    rfl

theorem Deeds.reports {S : Set ℕ} {fds : List ℕ} {w w' : NetWorker} (h : Deeds S fds w w')
    (hkeyed : w.WellKeyed) : w'.WellKeyed ∧ ∃ events, Reports w w' events := by
  induction h with
  | quiet hq =>
    refine ⟨wellKeyed_congr hkeyed hq.connections, [], ?_⟩
    exact reports_nil hq.recvEvents (fun id => by rw [hq.connections]) hq.bytesReceived
  | alter _ hl hid _ =>
    exact ⟨Table.All.insert hkeyed (hid.trans (hkeyed _ _ hl)), [],
      reports_nil rfl (mem_setConnection hl _) rfl⟩
  | store _ _ hl hid _ _ =>
    exact ⟨Table.All.insert hkeyed (hid.trans (hkeyed _ _ hl)), [],
      reports_nil rfl (mem_setConnection hl _) rfl⟩
  | close _ => exact ⟨hkeyed, [], reports_nil rfl (fun _ => Iff.rfl) rfl⟩
  | data _ hmem hbytes => exact ⟨hkeyed, _, reports_received hmem hbytes⟩
  | @remove w id _ err _ hl herr hfound =>
    refine ⟨(moves_removeConnection w id err).wellKeyed hkeyed, [failure id err], ?_⟩
    exact reports_removeConnection hl (hkeyed _ _ hl) herr hfound
  | trans _ _ ih ih' =>
    obtain ⟨hmid, l, hl⟩ := ih hkeyed
    obtain ⟨hlast, l', hl'⟩ := ih' hmid
    exact ⟨hlast, l ++ l', hl.trans hl'⟩

/-! ## What a step tells about one id -/

/-- What happens to the id on the way from `w` to `w'`, by the execution of `cmd`, by `Stop`, or
otherwise. -/
def noticesOf (id : ℕ) (cmd : Option Command) (stopped : Bool) (w w' : NetWorker) : List Notice :=
  (if cmd.bind Command.opens = some id ∧ id ∉ w.connections then [.entered] else [])
    ++ (if cmd.bind Command.sendTo = some id then [.send] else [])
    ++ (ofId id (w'.recvEvents.drop w.recvEvents.length)).map .event
    ++ (if (id ∈ w.connections ∨ cmd.bind Command.opens = some id) ∧ id ∉ w'.connections then
        [if stopped || cmd = some (.close id) then .closed else .removed] else [])

/-- The protocol goes on with `new` on the way from `w` to `w'`, which opens a connection or not. -/
def GoesOn (id : ℕ) (stage : Stage) (notices new : List Notice) (opening : Option ℕ)
    (w w' : NetWorker) : Prop :=
  ∃ stage', Life id stage' (notices ++ new) ∧ (stage' = .present ↔ id ∈ w'.connections) ∧
    (stage' = .gone → stage = .gone ∨ id ∈ w.connections ∨ opening = some id)

section Life

variable {id k : ℕ} {stage : Stage} {notices : List Notice} {w w' : NetWorker}
  {events : List RecvEvent} {opening : Option ℕ}

/-- Nothing happens to the id. -/
theorem Life.rests (h : Life id stage notices) (hstage : stage = .present ↔ id ∈ w.connections)
    (hconn : id ∈ w'.connections ↔ id ∈ w.connections) :
    GoesOn id stage notices [] opening w w' := by
  refine ⟨stage, ?_, hstage.trans hconn.symm, .inl⟩
  rw [List.append_nil]
  exact h

/-- Its events are emitted. -/
theorem Life.tells (h : Life id stage notices) (hstage : stage = .present ↔ id ∈ w.connections)
    (ht : Tells id w w' events) :
    GoesOn id stage notices ((ofId id events).map .event ++
      if id ∈ w.connections ∧ id ∉ w'.connections then [.removed] else []) opening w w' := by
  cases ht with
  | absent hout hout' hnone =>
    rw [hnone, if_neg fun h => hout h.1, List.map_nil, List.append_nil]
    exact h.rests hstage (iff_of_false hout' hout)
  | stays hin hin' hdata =>
    have hpresent := hstage.mpr hin
    subst hpresent
    refine ⟨.present, ?_, by simp [hin'], fun h => nomatch h⟩
    rw [if_neg fun h => h.2 hin', List.append_nil]
    exact h.go hdata
  | @leaves data err hin hout' hdata herr hfound hall =>
    have hpresent := hstage.mpr hin
    subst hpresent
    refine ⟨.gone, ?_, by simp [hout'], fun _ => .inr (.inl hin)⟩
    rw [if_pos ⟨hin, hout'⟩, hall, List.map_append, List.append_assoc, ← List.append_assoc]
    exact (h.go hdata).fail herr hfound

/-- A step that is about another id, or about none. -/
theorem noticesOf_other (hlog : w'.recvEvents = w.recvEvents ++ events) {cmd : Option Command}
    (hopens : cmd.bind Command.opens ≠ some id) (hsend : cmd.bind Command.sendTo ≠ some id)
    (hclose : cmd ≠ some (.close id)) :
    noticesOf id cmd false w w' = (ofId id events).map .event ++
      if id ∈ w.connections ∧ id ∉ w'.connections then [.removed] else [] := by
  have hdrop := drop_of_log hlog
  unfold noticesOf
  simp [hdrop, hopens, hsend, hclose]

/-! ## Commands -/

theorem opens_not_send {cmd : Command} (h : cmd.opens = some k) :
    cmd.sendTo = none ∧ ∀ j, cmd ≠ .close j := by
  cases cmd <;> cases h <;> exact ⟨rfl, fun _ h => nomatch h⟩

theorem Life.entered (h : Life id stage notices) (hstage : stage = .present ↔ id ∈ w.connections)
    {cmd : Command} {conn : Connection} (hopens : cmd.opens = some k) (hnew : k ∉ w.connections)
    (hwait : k = id → stage ≠ .gone) (hr : Reports (w.setConnection k conn) w' events) :
    GoesOn id stage notices (noticesOf id (some cmd) false w w') (some k) w w' := by
  have hlog : w'.recvEvents = w.recvEvents ++ events := hr.log
  obtain ⟨hsend, hclose⟩ := opens_not_send hopens
  by_cases hid : k = id
  · subst hid
    have hin : k ∈ (w.setConnection k conn).connections := (AList.mem_insert _).mpr (.inl rfl)
    have hfirst : Life k .present (notices ++ [.entered]) := by
      cases stage with
      | waiting => exact h.enter
      | present => exact absurd (hstage.mp rfl) hnew
      | gone => exact absurd rfl (hwait rfl)
    obtain ⟨stage', hlife, hpresent, -⟩ :=
      @Life.tells k _ _ _ _ _ none hfirst (iff_of_true rfl hin) (hr.tells k)
    refine ⟨stage', ?_, hpresent, fun _ => .inr (.inr rfl)⟩
    have hdrop := drop_of_log hlog
    have hall : noticesOf k (some cmd) false w w' = .entered :: ((ofId k events).map .event ++
        if k ∈ (w.setConnection k conn).connections ∧ k ∉ w'.connections then [.removed]
        else []) := by
      unfold noticesOf
      simp [hdrop, hopens, hnew, hsend, hclose, hin]
    rw [hall]
    rwa [List.append_assoc] at hlife
  · have hiff : id ∈ (w.setConnection k conn).connections ↔ id ∈ w.connections := by
      show id ∈ w.connections.insert k conn ↔ _
      rw [AList.mem_insert]
      exact ⟨fun h => h.resolve_left fun heq => hid heq.symm, .inr⟩
    obtain ⟨stage', hlife, hpresent, hgone⟩ :=
      @Life.tells id _ _ _ _ _ (some k) h (hstage.trans hiff.symm) (hr.tells id)
    simp only [hiff] at hlife hgone
    refine ⟨stage', ?_, hpresent, hgone⟩
    rw [noticesOf_other hlog (by simp [hopens, hid]) (by simp [hsend]) (by simp [hclose])]
    exact hlife

theorem Life.sent (h : Life id stage notices) (hstage : stage = .present ↔ id ∈ w.connections)
    {payload : Bytes} (hin : k ∈ w.connections) (hr : Reports w w' events) :
    GoesOn id stage notices (noticesOf id (some (.send k payload)) false w w') opening w w' := by
  by_cases hid : k = id
  · subst hid
    have hpresent := hstage.mpr hin
    subst hpresent
    obtain ⟨stage', hlife, hpresent, hgone⟩ :=
      @Life.tells k _ _ _ _ _ opening (h.go (alive_send k)) hstage (hr.tells k)
    refine ⟨stage', ?_, hpresent, hgone⟩
    have hdrop := drop_of_log hr.log
    have hall : noticesOf k (some (.send k payload)) false w w' =
        .send :: ((ofId k events).map .event ++
          if k ∈ w.connections ∧ k ∉ w'.connections then [.removed] else []) := by
      unfold noticesOf
      simp [hdrop, Command.opens, Command.sendTo]
    rw [hall]
    rwa [List.append_assoc] at hlife
  · rw [noticesOf_other hr.log (by simp [Command.opens]) (by simp [Command.sendTo, hid]) (by simp)]
    exact h.tells hstage (hr.tells id)

theorem Life.missed (h : Life id stage notices) (hstage : stage = .present ↔ id ∈ w.connections)
    {payload : Bytes} (hout : k ∉ w.connections) (hconn : w'.connections = w.connections)
    (hlog : w'.recvEvents = w.recvEvents ++ [failure k .connectionNotFound]) :
    GoesOn id stage notices (noticesOf id (some (.send k payload)) false w w') opening w w' := by
  by_cases hid : k = id
  · subst hid
    have hall : noticesOf k (some (.send k payload)) false w w' =
        [.send, .event (failure k .connectionNotFound)] := by
      unfold noticesOf
      simp [hlog, hout, ofId, failure, Command.opens, Command.sendTo]
    rw [hall]
    refine ⟨stage, h.miss fun heq => hout (hstage.mp heq), ?_, .inl⟩
    rw [hconn]
    exact hstage
  · have hall : noticesOf id (some (.send k payload)) false w w' = [] := by
      unfold noticesOf
      simp [hlog, hid, hconn, ofId, failure, Command.opens, Command.sendTo]
    rw [hall]
    exact h.rests hstage (by rw [hconn])

/-- `Close` and `Stop` emit nothing. -/
theorem Life.closes (h : Life id stage notices) (hstage : stage = .present ↔ id ∈ w.connections)
    (hconn : id ∈ w'.connections → id ∈ w.connections) :
    GoesOn id stage notices
      (if id ∈ w.connections ∧ id ∉ w'.connections then [.closed] else []) opening w w' := by
  split_ifs with hleft
  · have hpresent := hstage.mpr hleft.1
    subst hpresent
    exact ⟨.gone, h.close, by simp [hleft.2], fun _ => .inr (.inl hleft.1)⟩
  · refine h.rests hstage ⟨hconn, fun hin => ?_⟩
    by_contra hout
    exact hleft ⟨hin, hout⟩

theorem removeConnection_silent (w : NetWorker) (id : ℕ) :
    (w.removeConnection id .ok).recvEvents = w.recvEvents := by
  unfold removeConnection
  cases w.connections.lookup id with
  | none => rfl
  | some conn =>
    dsimp only
    rw [if_neg (by decide)]
    exact releaseFd_recvEvents w conn.fd

theorem Life.closed_command (h : Life id stage notices)
    (hstage : stage = .present ↔ id ∈ w.connections) :
    GoesOn id stage notices
      (noticesOf id (some (.close k)) false w (w.removeConnection k .ok)) opening w
      (w.removeConnection k .ok) := by
  have hlog := removeConnection_silent w k
  have hmem : ∀ j, j ∈ (w.removeConnection k .ok).connections ↔ j ≠ k ∧ j ∈ w.connections := by
    intro j
    rw [removeConnection_connections]
    exact AList.mem_erase
  have hall : noticesOf id (some (.close k)) false w (w.removeConnection k .ok) =
      if id ∈ w.connections ∧ id ∉ (w.removeConnection k .ok).connections then [.closed]
      else [] := by
    unfold noticesOf
    by_cases hid : id = k <;>
      simp [hlog, hmem, hid, ofId, Command.opens, Command.sendTo]
  rw [hall]
  exact h.closes hstage fun hin => ((hmem id).mp hin).2

/-- What the execution of any command tells. -/
theorem Life.carries (h : Life id stage notices) (hstage : stage = .present ↔ id ∈ w.connections)
    (hkeyed : w.WellKeyed) {create : ℕ → CreateSys} {cmd : Command}
    (hc : Carries create w cmd w') (hnew : ∀ k, cmd.opens = some k → k ∉ w.connections)
    (hwait : cmd.opens = some id → stage ≠ .gone) :
    GoesOn id stage notices (noticesOf id (some cmd) false w w') cmd.opens w w' := by
  cases hc with
  | @entered _ k conn _ hopens hout hid _ hdeeds =>
    have hset : (w.setConnection k conn).WellKeyed := Table.All.insert hkeyed hid
    obtain ⟨-, events, hr⟩ := hdeeds.reports hset
    rw [hopens]
    exact h.entered hstage hopens hout (fun heq => hwait (heq ▸ hopens)) hr
  | collided hopens hin _ => exact absurd hin (hnew _ hopens)
  | sent hin hdeeds =>
    obtain ⟨-, events, hr⟩ := hdeeds.reports hkeyed
    exact h.sent hstage hin hr
  | missed hout hq => exact h.missed hstage hout hq.connections hq.recvEvents
  | closed k => exact h.closed_command hstage

end Life

theorem Deeds.log {S : Set ℕ} {fds : List ℕ} {w w' : NetWorker} (h : Deeds S fds w w')
    (hkeyed : w.WellKeyed) :
    ∃ events, w'.recvEvents = w.recvEvents ++ events ∧
      w'.bytesReceived = w.bytesReceived + dataBytes events := by
  obtain ⟨-, events, hr⟩ := h.reports hkeyed
  exact ⟨events, hr.log, hr.bytes⟩

/-- The bytes a command receives are those of the data events it emits. -/
theorem Carries.bytes {create : ℕ → CreateSys} {w w' : NetWorker} {cmd : Command}
    (h : Carries create w cmd w') (hkeyed : w.WellKeyed) :
    ∃ events, w'.recvEvents = w.recvEvents ++ events ∧
      w'.bytesReceived = w.bytesReceived + dataBytes events := by
  cases h with
  | entered _ _ hid _ hdeeds => exact hdeeds.log (Table.All.insert hkeyed hid)
  | @collided _ id _ _ _ => exact (deeds_ioFailed w (Set.mem_univ id)).log hkeyed
  | sent _ hdeeds => exact hdeeds.log hkeyed
  | missed _ hq => exact ⟨_, hq.recvEvents, hq.bytesReceived⟩
  | closed id =>
    refine ⟨[], ?_, removeConnection_bytesReceived w id .ok⟩
    rw [List.append_nil]
    exact removeConnection_silent w id

/-! ## Runs -/

namespace Polling

def stopping : Step → Bool
  | .stop => true
  | _ => false

/-- What happens to the id in one step of a run. -/
def notices (id : ℕ) (x : Polling × Step) : List Notice :=
  noticesOf id (x.1.executing x.2) (stopping x.2) x.1.net (x.1.step x.2).net

/-- The events the step emits. -/
def emits (x : Polling × Step) : List RecvEvent :=
  (x.1.step x.2).net.recvEvents.drop x.1.net.recvEvents.length

/-- The id the step gives out to a caller. -/
def givesOut (x : Polling × Step) : List ℕ :=
  match x.2 with
  | .submit cmd sys => if (x.1.net.submit cmd sys).2 = 0 then [] else [(x.1.net.submit cmd sys).2]
  | _ => []

/-- The step executes no command, does not stop the worker and leaves its events alone. -/
def plain : Step → Bool
  | .stop | .clearEvents | .execute _ => false
  | _ => true

variable {p : Polling} {id : ℕ} {stage : Stage} {before : List Notice}

theorem step_reports (h : p.Sane) {s : Step} (hplain : plain s = true) :
    ∃ events, Reports p.net (p.step s).net events := by
  cases s with
  | start sys =>
    refine ⟨[], ?_⟩
    rw [step_start]
    by_cases hs : p.net.started = true
    · rw [start_started hs]
      exact reports_nil rfl (fun _ => Iff.rfl) rfl
    · have hnot : p.net.started = false := by simpa using hs
      have hempty := (h.idle hnot).connections
      rcases start_cases hnot sys with ⟨-, hw⟩ | ⟨e, -, -, hw⟩ | ⟨e, k, -, -, -, hw⟩ |
        ⟨e, k, -, -, -, hw⟩ <;> rw [hw]
      · exact reports_nil rfl (fun _ => Iff.rfl) rfl
      · exact reports_nil rfl (fun id => by rw [hempty]; rfl) rfl
      · exact reports_nil rfl (fun id => by rw [hempty]; rfl) rfl
      · exact reports_nil rfl (fun _ => Iff.rfl) rfl
  | stop => cases hplain
  | submit cmd sys =>
    have hs := submit_sameNet cmd sys p.net
    refine ⟨[], reports_nil hs.recvEvents (fun id => ?_) hs.bytesReceived⟩
    rw [step_submit, hs.connections]
  | clearEvents => cases hplain
  | take => exact ⟨[], reports_nil rfl (fun _ => Iff.rfl) rfl⟩
  | execute create => cases hplain
  | checkConnectTimeouts nowNs order =>
    exact ((deeds_checkConnectTimeouts p.net nowNs order).reports h.wellKeyed).2
  | dispatch ev => exact ((deeds_dispatch p.net ev h.wellKeyed).reports h.wellKeyed).2

theorem stop_silent (w : NetWorker) :
    w.stop.recvEvents = w.recvEvents ∧ w.stop.bytesReceived = w.bytesReceived ∧
      ∀ id ∈ w.stop.connections, id ∈ w.connections := by
  unfold NetWorker.stop
  split_ifs
  · exact ⟨rfl, rfl, fun _ h => h⟩
  · exact ⟨rfl, rfl, fun _ h => by cases h⟩

/-- In each step the protocol goes on. -/
theorem goesOn_step (h : p.Sane) (s : Step) (hlife : Life id stage before)
    (hpresent : stage = .present ↔ id ∈ p.net.connections) (hgone : stage = .gone → p.Used id) :
    GoesOn id stage before (notices id (p, s)) (p.opening s) p.net (p.step s).net := by
  by_cases hplain : plain s = true
  · obtain ⟨events, hr⟩ := step_reports h hplain
    have hnone : p.executing s = none ∧ stopping s = false := by
      cases s <;> first | exact ⟨rfl, rfl⟩ | cases hplain
    unfold notices
    dsimp only
    rw [hnone.1, hnone.2, noticesOf_other hr.log (by simp) (by simp) (by simp)]
    exact hlife.tells hpresent (hr.tells id)
  cases s with
  | stop =>
    obtain ⟨hlog, -, hconn⟩ := stop_silent p.net
    have hall : notices id (p, .stop) =
        if id ∈ p.net.connections ∧ id ∉ p.net.stop.connections then [.closed] else [] := by
      unfold notices noticesOf
      simp [hlog, executing, stopping, ofId]
    rw [hall]
    exact hlife.closes hpresent (hconn id)
  | clearEvents =>
    have hall : notices id (p, .clearEvents) = [] := by
      simp [notices, noticesOf, executing, step, ofId]
    rw [hall]
    exact hlife.rests hpresent Iff.rfl
  | execute create =>
    cases ht : p.taken with
    | nil =>
      have hall : notices id (p, .execute create) = [] := by
        simp [notices, noticesOf, executing, ht, step_execute_nil ht, ofId]
      rw [hall, step_execute_nil ht]
      exact hlife.rests hpresent Iff.rfl
    | cons cmd cmds =>
      have hopening : p.opening (.execute create) = cmd.opens := by
        simp [opening, executing, ht]
      have hwait : ∀ k, cmd.opens = some k → ¬ p.Used k := by
        intro k hopens hused
        exact hused.2 (h.numbered.opening (hopening.trans hopens)).1
      have hall : notices id (p, .execute create) =
          noticesOf id (some cmd) false p.net (p.net.handleCommand create cmd) := by
        unfold notices
        simp [executing, ht, step_execute_cons ht, stopping]
      rw [hall, hopening, step_execute_cons ht]
      refine hlife.carries hpresent h.wellKeyed (handleCommand_carries create p.net cmd) ?_ ?_
      · exact fun k hopens hin => hwait k hopens (h.numbered.used k hin)
      · exact fun hopens hstage => hwait id hopens (hgone hstage)
  | _ => exact absurd rfl hplain

/-- What ties the stage of an id to the worker. -/
structure At (id : ℕ) (stage : Stage) (p : Polling) : Prop where
  present : stage = .present ↔ id ∈ p.net.connections
  gone : stage = .gone → p.Used id

/-- Every step follows the protocol. -/
theorem life_step (h : p.Sane) (s : Step) (hlife : Life id stage before) (hat : At id stage p) :
    ∃ stage', Life id stage' (before ++ notices id (p, s)) ∧ At id stage' (p.step s) := by
  obtain ⟨stage', hnext, hpresent, hgone⟩ := goesOn_step h s hlife hat.present hat.gone
  refine ⟨stage', hnext, hpresent, fun hstage => ?_⟩
  rcases hgone hstage with hbefore | hin | hopening
  · exact (hat.gone hbefore).step s
  · exact (h.numbered.used id hin).step s
  · exact (h.numbered.opening hopening).2

/-- Every run follows the protocol. -/
theorem life_run (h : p.Sane) (hlife : Life id stage before) (hat : At id stage p)
    (steps : List Step) :
    ∃ stage', Life id stage' (before ++ (p.visits steps).flatMap (notices id)) ∧
      At id stage' (p.run steps) := by
  induction steps generalizing p stage before with
  | nil =>
    refine ⟨stage, ?_, hat⟩
    rw [visits, Mealy.visits_nil, List.flatMap_nil, List.append_nil]
    exact hlife
  | cons s steps ih =>
    obtain ⟨stage', hnext, hat'⟩ := life_step h s hlife hat
    rw [visits, Mealy.visits_cons, List.flatMap_cons, ← List.append_assoc]
    exact ih (h.step s) hnext hat'

/-! ## Bytes -/

theorem emits_eq {s : Step} {events : List RecvEvent}
    (hlog : (p.step s).net.recvEvents = p.net.recvEvents ++ events) : emits (p, s) = events := by
  unfold emits
  exact drop_of_log hlog

theorem step_bytes (h : p.Sane) (s : Step) :
    (p.step s).net.bytesReceived = p.net.bytesReceived + dataBytes (emits (p, s)) := by
  by_cases hplain : plain s = true
  · obtain ⟨events, hr⟩ := step_reports h hplain
    rw [emits_eq hr.log]
    exact hr.bytes
  cases s with
  | stop =>
    obtain ⟨hlog, hbytes, -⟩ := stop_silent p.net
    have hnone : emits (p, .stop) = [] := by
      apply emits_eq
      rw [List.append_nil]
      exact hlog
    rw [hnone]
    exact hbytes
  | clearEvents =>
    have hnone : emits (p, .clearEvents) = [] := List.drop_nil
    rw [hnone]
    rfl
  | execute create =>
    cases ht : p.taken with
    | nil =>
      have hsame := step_execute_nil ht create
      have hnone : emits (p, .execute create) = [] := by
        apply emits_eq
        rw [hsame, List.append_nil]
      rw [hnone, hsame]
      rfl
    | cons cmd cmds =>
      obtain ⟨events, hlog, hbytes⟩ :=
        (handleCommand_carries create p.net cmd).bytes h.wellKeyed
      have hstep := step_execute_cons ht create
      have hall : emits (p, .execute create) = events := by
        apply emits_eq
        rw [hstep]
        exact hlog
      rw [hall, hstep]
      exact hbytes
  | _ => exact absurd rfl hplain

theorem run_bytes (h : p.Sane) (steps : List Step) :
    (p.run steps).net.bytesReceived =
      p.net.bytesReceived + dataBytes ((p.visits steps).flatMap emits) := by
  induction steps generalizing p with
  | nil => rfl
  | cons s steps ih =>
    rw [visits, Mealy.visits_cons, List.flatMap_cons, dataBytes_append, ← Nat.add_assoc,
      ← step_bytes h s]
    exact ih (h.step s)

/-! ## Ids -/

/-- The id a step gives out is the next one. -/
theorem givesOut_step (p : Polling) (s : Step) :
    p.net.nextConnId ≤ (p.step s).net.nextConnId ∧
      ∀ id ∈ givesOut (p, s), id = p.net.nextConnId ∧ id < (p.step s).net.nextConnId := by
  refine ⟨?_, fun id hid => ?_⟩
  · obtain ⟨new, -, -, hnext⟩ := p.step_waiting s
    omega
  · cases s with
    | submit cmd sys =>
      obtain ⟨cmds, -, -, hadd⟩ := submit_enqueues cmd sys p.net
      unfold givesOut at hid
      dsimp only at hid
      rw [step_submit]
      generalize (p.net.submit cmd sys).1.nextConnId = next at hadd ⊢
      generalize (p.net.submit cmd sys).2 = given at hadd hid
      cases hadd with
      | create cmd _ =>
        split_ifs at hid
        · cases hid
        · rw [List.mem_singleton.mp hid]
          exact ⟨rfl, Nat.lt_succ_self _⟩
      | _ => cases hid
    | _ => cases hid

/-- The ids given out from a state on are new, and grow. -/
theorem givesOut_run (p : Polling) (steps : List Step) :
    ((p.visits steps).flatMap givesOut).Pairwise (· < ·) ∧
      ∀ id ∈ (p.visits steps).flatMap givesOut, p.net.nextConnId ≤ id := by
  induction steps generalizing p with
  | nil => exact ⟨List.Pairwise.nil, fun _ h => by cases h⟩
  | cons s steps ih =>
    obtain ⟨hmono, hgiven⟩ := givesOut_step p s
    obtain ⟨hgrow, hnew⟩ := ih (p.step s)
    have hsingle : (givesOut (p, s)).Pairwise (· < ·) := by
      unfold givesOut
      dsimp only
      split
      · split_ifs
        · exact List.Pairwise.nil
        · exact List.pairwise_singleton _ _
      · exact List.Pairwise.nil
    rw [visits, Mealy.visits_cons, List.flatMap_cons]
    constructor
    · refine List.pairwise_append.mpr ⟨hsingle, hgrow, fun id hid id' hid' => ?_⟩
      exact (hgiven id hid).2.trans_le (hnew id' hid')
    · intro id hid
      rcases List.mem_append.mp hid with hid | hid
      · exact (hgiven id hid).1.ge
      · exact hmono.trans (hnew id hid)

/-! ## The protocol of the events -/

theorem at_init (id : ℕ) : At id .waiting {} := by
  constructor
  · constructor <;> intro h <;> cases h
  · intro h
    cases h

/-- **The events of a connection follow the protocol.** In every run the ids given out grow; what
happens to an id is a life of it, which is at the stage `present` exactly while the connection is in
the table; and the bytes of the data events are the bytes received. -/
theorem event_protocol (steps : List Step) :
    ((visits {} steps).flatMap givesOut).Pairwise (· < ·) ∧
      (∀ id, ∃ stage, Life id stage ((visits {} steps).flatMap (notices id)) ∧
        (stage = .present ↔ id ∈ (run {} steps).net.connections)) ∧
      dataBytes ((visits {} steps).flatMap emits) = (run {} steps).net.bytesReceived := by
  refine ⟨(givesOut_run {} steps).1, fun id => ?_, ?_⟩
  · obtain ⟨stage, hlife, hat⟩ := life_run sane_init (.waiting 0) (at_init id) steps
    exact ⟨stage, hlife, hat.present⟩
  · have hbytes := run_bytes sane_init steps
    rw [hbytes]
    exact (Nat.zero_add _).symm

end Polling

end NetWorker

end TitanBench
