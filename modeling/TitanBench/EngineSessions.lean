import TitanBench.EngineCharge
import TitanBench.EngineStats
import TitanBench.NetworkTables

/-!
# The sessions of a run

A session is taken out of its worker's map, changed and put back, under its own id or under that
of a new connection, or it is given up.

* `Seated` — what a worker knows of its sessions; `Move.seated` says that every step keeps it.
* `Runs.sessions_le` — a run never has more sessions than connections were asked for.
* `Move.pays_request` — a request that was granted is in hand, in flight or completed.
* `no_request_forgotten` — the main result.
-/

namespace TitanBench

open Threads

/-! ## Submissions -/

namespace NetWorker

/-- What `CreateTcpConnection` and `CreateUdpConnection` can do. -/
inductive Opening (w : NetWorker) : NetWorker × NetErrc × ℕ → Prop
  | denied {err : NetErrc} : err ≠ .ok → Opening w (w, err, 0)
  | noNode : Opening w ({ w with nextConnId := w.nextConnId + 1 }, .queueFull, 0)
  | queued {cmd : Command} (err : NetErrc) : cmd.opens = some w.nextConnId →
      Opening w
        ({ w with
            nextConnId := w.nextConnId + 1
            commands := w.commands ++ [cmd]
            submitted := w.submitted ++ cmd.payloads }, err, w.nextConnId)

theorem createTcpConnection_opening (w : NetWorker) (endpoint : Endpoint) (timeoutMs : ℤ)
    (sys : SubmitSys) : Opening w (w.createTcpConnection endpoint timeoutMs sys) := by
  unfold createTcpConnection
  split_ifs
  · exact .denied (by decide)
  · exact .denied (by decide)
  · exact .noNode
  · exact .queued _ rfl

theorem createUdpConnection_opening (w : NetWorker) (endpoint : Endpoint) (sys : SubmitSys) :
    Opening w (w.createUdpConnection endpoint sys) := by
  unfold createUdpConnection
  split_ifs
  · exact .denied (by decide)
  · exact .denied (by decide)
  · exact .noNode
  · exact .queued _ rfl

/-- What `Send` can do. -/
inductive Sending (w : NetWorker) (id : ℕ) (payload : Bytes) : NetWorker → Prop
  | denied : Sending w id payload w
  | queued :
      Sending w id payload
        { w with
          commands := w.commands ++ [.send id payload]
          submitted := w.submitted ++ [payload] }

theorem send_sending (w : NetWorker) (id : ℕ) (payload : Bytes) (sys : SubmitSys) :
    Sending w id payload (w.send id payload sys).1 := by
  unfold send
  split_ifs
  · exact .denied
  · exact .denied
  · exact .denied
  · exact .queued

theorem Sending.nextConnId {w w' : NetWorker} {id : ℕ} {payload : Bytes}
    (h : Sending w id payload w') : w'.nextConnId = w.nextConnId := by
  cases h <;> rfl

theorem Opening.le {w : NetWorker} {r : NetWorker × NetErrc × ℕ} (h : Opening w r) :
    w.nextConnId ≤ r.1.nextConnId := by
  cases h with
  | denied => exact le_rfl
  | _ => exact Nat.le_succ _

/-- A connection that was asked for has the next id. -/
theorem Opening.ok {w : NetWorker} {r : NetWorker × NetErrc × ℕ} (h : Opening w r)
    (hok : r.2.1 = .ok) : r.2.2 = w.nextConnId ∧ r.1.nextConnId = w.nextConnId + 1 := by
  cases h with
  | denied hne => exact absurd hok hne
  | noNode => cases hok
  | queued => exact ⟨rfl, rfl⟩

theorem start_nextConnId (w : NetWorker) (sys : StartSys) :
    (w.start sys).1.nextConnId = w.nextConnId := by
  unfold start
  split
  · rfl
  · cases sys.epollFd with
    | none => rfl
    | some epollFd =>
      cases sys.wakeFd with
      | none => rfl
      | some wakeFd =>
        dsimp only
        split <;> rfl

theorem closeConnection_nextConnId (w : NetWorker) (id : ℕ) (sys : SubmitSys) :
    (w.closeConnection id sys).1.nextConnId = w.nextConnId := by
  unfold closeConnection
  split_ifs <;> rfl

theorem stop_nextConnId (w : NetWorker) : w.stop.nextConnId = w.nextConnId := by
  unfold stop
  split <;> rfl

end NetWorker

/-! ## The map of a worker -/

/-- The sessions the worker has still to create or to put back, when it is given `share`. -/
def EventCtl.vacant (share : ℕ) : EventCtl → ℕ
  | .start => share
  | .connecting left => left
  | .retrying .. | .reconnecting .. => 1
  | _ => 0

/-- The worker is between two iterations of its loops, or outside of them. -/
def EventCtl.between : EventCtl → Bool
  | .acquiring .. | .waiting .. | .sending .. | .retrying .. | .reconnecting .. => false
  | _ => true

/-- The thread has done all it has to do before its next iteration. -/
def Thread.Between (t : Thread) : Prop :=
  t.ops = [] ∧
    match t.body with
    | .event w => w.ctl.between = true
    | _ => True

namespace EventWorker

/-- The session the send loop has picked. -/
def picked (w : EventWorker) : Option ℕ :=
  match w.ctl with
  | .acquiring id .. => some id
  | .waiting id .. => some id
  | .sending id .. => some id
  | _ => none

theorem submitConnection_opening (cfg : Config) (sys : SubmitSys) (net : NetWorker) :
    net.Opening (submitConnection cfg sys net) := by
  unfold submitConnection
  split
  · exact net.createUdpConnection_opening _ _
  · exact net.createTcpConnection_opening _ _ _

theorem dataEvent_connId (cfg : Config) (env : Env) (data : Bytes) (old : Session) :
    (dataEvent cfg env data old).2.connId = old.connId := by
  have hd := dataEvent_digested cfg env data old
  generalize dataEvent cfg env data old = r at hd
  cases hd <;> rfl

/-- Every session is entered under its own id, which was given out by the worker's `NetWorker`. The
session the send loop has picked is there and has nothing in flight, and there are no more
sessions than the worker's share. -/
structure Seated (share : ℕ) (w : EventWorker) : Prop where
  keyed : w.sessions.All fun id s => s.connId = id
  below : w.sessions.All fun id _ => 0 < id ∧ id < w.net.nextConnId
  next : 0 < w.net.nextConnId
  picked : ∀ id, w.picked = some id → ∃ s, w.sessions.lookup id = some s ∧ s.inFlight = false
  count : w.sessions.keys.length + w.ctl.vacant share ≤ share

variable {share : ℕ} {w w' : EventWorker}

/-- The sessions stay. -/
theorem Seated.same (h : w.Seated share) (hs : w'.sessions = w.sessions)
    (hn : w.net.nextConnId ≤ w'.net.nextConnId) (hp : w'.picked = none ∨ w'.picked = w.picked)
    (hv : w'.ctl.vacant share ≤ w.ctl.vacant share) : w'.Seated share := by
  refine ⟨hs ▸ h.keyed, ?_, h.next.trans_le hn, fun id hid => ?_, ?_⟩
  · intro id s hl
    rw [hs] at hl
    have hold := h.below id s hl
    exact ⟨hold.1, hold.2.trans_le hn⟩
  · rcases hp with hp | hp
    · rw [hp] at hid
      cases hid
    · rw [hs]
      exact h.picked id (hp ▸ hid)
  · rw [hs]
    exact (Nat.add_le_add_left hv _).trans h.count

/-- A session is put into the map or back into it. -/
theorem Seated.put (h : w.Seated share) {sessions : Table ℕ Session} {id : ℕ} {s : Session}
    (hkeyed : sessions.All fun id s => s.connId = id)
    (hbelow : sessions.All fun id _ => 0 < id ∧ id < w.net.nextConnId)
    (hs : w'.sessions = sessions.insert id s) (hid : s.connId = id) (hpos : 0 < id)
    (hlt : id < w'.net.nextConnId) (hn : w.net.nextConnId ≤ w'.net.nextConnId)
    (hp : w'.picked = none)
    (hcount : (sessions.erase id).keys.length + 1 + w'.ctl.vacant share ≤ share) :
    w'.Seated share := by
  refine ⟨?_, ?_, h.next.trans_le hn, fun id hid => ?_, ?_⟩
  · rw [hs]
    exact hkeyed.insert hid
  · rw [hs]
    refine Table.All.insert (fun k v hl => ?_) ⟨hpos, hlt⟩
    have hold := hbelow k v hl
    exact ⟨hold.1, hold.2.trans_le hn⟩
  · rw [hp] at hid
    cases hid
  · rw [hs, Table.length_insert]
    exact hcount

theorem seated_empty (hs : w.sessions = ∅) (hn : w.net.nextConnId = 1) (hp : w.picked = none)
    (hv : w.ctl.vacant share ≤ share) : w.Seated share := by
  refine ⟨?_, ?_, by omega, fun id hid => ?_, ?_⟩
  · rw [hs]
    exact Table.all_empty _
  · rw [hs]
    exact Table.all_empty _
  · rw [hp] at hid
    cases hid
  · rw [hs]
    show 0 + _ ≤ share
    omega

theorem Opens.vacant {ctl next : EventCtl} (h : Opens ctl next) :
    next.vacant share + 1 = ctl.vacant share := by
  cases h <;> rfl

section Step

variable {cfg : Config} {n : ℕ} {i : Fin n} {env : Env} {sh : Shared n}
  {r : Shared n × List Op × EventWorker}

theorem closeAll_nextConnId (env : Env) (w : EventWorker) :
    (w.closeAll env).net.nextConnId = w.net.nextConnId := by
  have hfold : ∀ (ids : List ℕ) (net : NetWorker),
      (ids.foldl (fun net id => (net.closeConnection id (env.close id)).1) net).nextConnId
        = net.nextConnId := by
    intro ids
    induction ids with
    | nil => exact fun _ => rfl
    | cons id ids ih => exact fun net => (ih _).trans (net.closeConnection_nextConnId _ _)
  unfold closeAll
  exact (NetWorker.stop_nextConnId _).trans (hfold _ _)

theorem poll_nextConnId (env : Env) (w : EventWorker) :
    (NetWorker.pollOnce env.poll { w.net with recvEvents := [] }).1.nextConnId
      = w.net.nextConnId := by
  rw [NetWorker.pollOnce_nextConnId]

theorem send_nextConnId (cfg : Config) (env : Env) (id : ℕ) (w : EventWorker) :
    (w.net.send id (buildPayload cfg) env.submit).1.nextConnId = w.net.nextConnId :=
  (w.net.send_sending id (buildPayload cfg) env.submit).nextConnId

theorem Move.seated (hm : w.Move cfg i env sh r) (h : w.Seated (cfg.perWorker i)) :
    r.2.2.Seated (cfg.perWorker i) := by
  have hcount := h.count
  cases hm with
  | goes hg =>
    cases hg with
    | @pick now id todo s hc hl hidle =>
      refine ⟨h.keyed, h.below, h.next, fun id' hid => ?_, ?_⟩
      · cases hid
        exact ⟨s, hl, hidle⟩
      · exact (Nat.add_le_add_left (Nat.zero_le _) _).trans hcount
    | _ => exact h.same rfl le_rfl (.inl rfl) (Nat.zero_le _)
  | started hc hok =>
    refine h.same rfl (NetWorker.start_nextConnId _ _).ge (.inl rfl) ?_
    rw [hc]
    exact le_rfl
  | notStarted hc _ =>
    exact h.same rfl (NetWorker.start_nextConnId _ _).ge (.inl rfl) (Nat.zero_le _)
  | @opened next session hopens hok =>
    have hopening := submitConnection_opening cfg env.submit w.net
    obtain ⟨hid, hnext⟩ := hopening.ok hok
    have hpos := h.next
    refine h.put h.keyed h.below rfl rfl (by omega) ?_ hopening.le ?_ ?_
    · show (submitConnection cfg env.submit w.net).2.2
        < (submitConnection cfg env.submit w.net).1.nextConnId
      omega
    · rcases hopens.next with ⟨left, rfl⟩ | ⟨events, rfl⟩ <;> rfl
    · have herase := Table.length_erase_le w.sessions (submitConnection cfg env.submit w.net).2.2
      have hvacant : next.vacant (cfg.perWorker i) + 1 = w.ctl.vacant (cfg.perWorker i) :=
        hopens.vacant
      dsimp only
      omega
  | notOpened hopens =>
    exact h.same rfl (submitConnection_opening cfg env.submit w.net).le (.inl rfl) (Nat.zero_le _)
  | acquires hc _ =>
    exact h.same rfl le_rfl (.inr (by simp [EventWorker.picked, goto, hc])) (Nat.zero_le _)
  | granted hc _ =>
    exact h.same rfl le_rfl (.inr (by simp [EventWorker.picked, hc])) (Nat.zero_le _)
  | waits token hc =>
    exact h.same rfl le_rfl (.inr (by simp [EventWorker.picked, goto, hc])) (Nat.zero_le _)
  | waited token hc =>
    exact h.same rfl le_rfl (.inr (by simp [EventWorker.picked, goto, hc])) (Nat.zero_le _)
  | sent | sendFailed =>
    exact h.same rfl (send_nextConnId cfg env _ w).ge (.inl rfl) (Nat.zero_le _)
  | @requested id now todo s hc hl _ _ =>
    have hbelow := h.below id s hl
    have hsend := send_nextConnId cfg env s.connId w
    refine h.put h.keyed h.below rfl (h.keyed id s hl) hbelow.1 (hbelow.2.trans_le hsend.ge)
      hsend.ge rfl ?_
    rw [Table.length_erase hl]
    exact (Nat.add_le_add_left (Nat.zero_le _) _).trans hcount
  | polled | pollFailed =>
    exact h.same rfl (poll_nextConnId env w).ge (.inl rfl) (Nat.zero_le _)
  | @errored ev events old hc hl _ =>
    refine ⟨h.keyed.erase _, h.below.erase _, h.next, fun id hid => ?_, ?_⟩
    · cases hid
    · exact (Table.length_erase hl).le.trans ((Nat.le_add_right _ _).trans hcount)
  | @received ev events old hc hl _ =>
    have hkey : (dataEvent cfg env ev.data old).2.connId = ev.connId :=
      (dataEvent_connId cfg env ev.data old).trans (h.keyed _ _ hl)
    have hbelow := h.below _ _ hl
    refine h.put (h.keyed.erase _) (h.below.erase _) rfl rfl (hkey ▸ hbelow.1)
      (hkey ▸ hbelow.2) le_rfl rfl ?_
    have herase := Table.length_erase_le (w.sessions.erase ev.connId)
      (dataEvent cfg env ev.data old).2.connId
    have hlen := Table.length_erase hl
    show _ + 1 + 0 ≤ _
    omega
  | retried hc _ _ =>
    refine h.same rfl le_rfl (.inl rfl) ?_
    rw [hc]
    exact le_rfl
  | closed hc => exact h.same rfl (closeAll_nextConnId env w).ge (.inl rfl) (Nat.zero_le _)
  | _ => exact h.same rfl le_rfl (.inl rfl) (Nat.zero_le _)

end Step

end EventWorker

/-! ## The share of a worker -/

/-- The connections are spread over the workers. -/
theorem Config.sum_perWorker (cfg : Config) :
    ∑ i : Fin cfg.workers, cfg.perWorker i = cfg.concurrency.toNat := by
  have hspread : ∀ ks : List ℕ,
      ∑ i : Fin cfg.workers, ks.countP (fun k => k % cfg.workers == i) = ks.length := by
    intro ks
    induction ks with
    | nil => simp
    | cons k ks ih =>
      have hone : ∑ i : Fin cfg.workers, (if (k % cfg.workers == i) = true then 1 else 0) = 1 := by
        rw [Finset.sum_eq_single ⟨k % cfg.workers, Nat.mod_lt _ cfg.workers_pos⟩]
        · simp
        · intro i _ hne
          refine if_neg fun heq => hne (Fin.ext ?_)
          exact (beq_iff_eq.mp heq).symm
        · intro hnot
          exact absurd (Finset.mem_univ _) hnot
      simp only [List.countP_cons, Finset.sum_add_distrib, ih, hone, List.length_cons]
  rw [← List.length_range (n := cfg.concurrency.toNat)]
  exact hspread _

namespace Body

def Seated (share : ℕ) : Body → Prop
  | .event w => w.Seated share
  | _ => True

/-- The number of sessions of the thread. -/
def sessionCount : Body → ℕ
  | .event w => w.sessions.keys.length
  | _ => 0

theorem Seated.count {share : ℕ} {b : Body} (h : b.Seated share) : b.sessionCount ≤ share := by
  cases b with
  | event w => exact (Nat.le_add_right _ _).trans (EventWorker.Seated.count h)
  | _ => exact Nat.zero_le _

end Body

theorem inFlightOf_le (sessions : Table ℕ Session) :
    inFlightOf sessions ≤ sessions.keys.length := by
  have hsum : ∀ l : List (Σ _ : ℕ, Session),
      (l.map fun e => e.2.load).sum ≤ (List.keys l).length := by
    intro l
    induction l with
    | nil => exact le_rfl
    | cons e l ih =>
      have hload : e.2.load ≤ 1 := by
        unfold Session.load
        split_ifs <;> omega
      simp only [List.map_cons, List.sum_cons, List.keys_cons, List.length_cons]
      omega
  exact hsum sessions.entries

theorem Body.inFlight_le (b : Body) : b.inFlight ≤ b.sessionCount := by
  cases b with
  | event w => exact inFlightOf_le w.sessions
  | _ => exact le_rfl

namespace Engine

variable {cfg : Config} {beginNs : ℕ} {c : Conf cfg.threadCount}

theorem Move.seated {n : ℕ} {env : Env} {sh : Shared n} {i : Fin n} {t : Thread}
    {r : Shared n × Thread} (hm : Move cfg env sh (some i) t r)
    (h : t.body.Seated (cfg.perWorker i)) : r.2.body.Seated (cfg.perWorker i) := by
  cases hm with
  | op => exact h
  | event hm => exact hm.seated h
  | slot => trivial
  | stay => exact h

theorem Runs.seated (h : Runs cfg beginNs c) (i : Fin cfg.threadCount) :
    (c.locals (some i)).body.Seated (cfg.perWorker i) := by
  refine h.local_invariant (J := fun t => t.body.Seated (cfg.perWorker i)) (some i) ?_ ?_
  · show (initialBody cfg i).Seated (cfg.perWorker i)
    unfold initialBody
    split_ifs
    · trivial
    · exact EventWorker.seated_empty rfl rfl rfl (Nat.zero_le _)
    · exact EventWorker.seated_empty rfl rfl rfl le_rfl
  · intro c e _ _ ht
    exact (step_move cfg _ e c.shared _).seated ht

theorem Runs.seated_event (h : Runs cfg beginNs c) {i : Fin cfg.threadCount} {ops : List Op}
    {w : EventWorker} (hw : c.locals (some i) = ⟨ops, .event w⟩) :
    w.Seated (cfg.perWorker i) := by
  have hseated := h.seated i
  rw [hw] at hseated
  exact hseated

/-- The workers of a run together have no more sessions than connections were asked for. -/
theorem Runs.sessions_le (hp : cfg.protocol ≠ .https) (h : Runs cfg beginNs c) :
    ∑ i, (c.locals (some i)).body.sessionCount ≤ cfg.concurrency.toNat := by
  have hthreads : cfg.threadCount = cfg.workers := by
    unfold Config.threadCount
    rw [if_neg hp]
  calc ∑ i, (c.locals (some i)).body.sessionCount
      ≤ ∑ i : Fin cfg.threadCount, cfg.perWorker i :=
        Finset.sum_le_sum fun i _ => (h.seated i).count
    _ = ∑ i : Fin cfg.workers, cfg.perWorker i := by rw [hthreads]
    _ = cfg.concurrency.toNat := cfg.sum_perWorker

/-! ## What a granted request turns into -/

theorem inFlightOf_put (sessions : Table ℕ Session) {id : ℕ} (s : Session)
    (hidle : ∀ old, sessions.lookup id = some old → old.inFlight = false) :
    inFlightOf (sessions.insert id s) = inFlightOf sessions + s.load := by
  have htotal := Table.total_insert (fun _ (s : Session) => s.load) sessions id s
  have hweight : Table.weight (fun _ (s : Session) => s.load) sessions id = 0 := by
    cases hl : sessions.lookup id with
    | none => exact Table.weight_none hl
    | some old =>
      rw [Table.weight_eq hl]
      simp [Session.load, hidle old hl]
  rw [hweight] at htotal
  exact htotal

/-- What was in flight before a data event is completed, or in flight after it. -/
theorem dataEvent_pays (cfg : Config) (env : Env) (data : Bytes) (old : Session) :
    old.load ≤ owed .completed (EventWorker.dataEvent cfg env data old).1
      + (EventWorker.dataEvent cfg env data old).2.load := by
  have hload : old.load ≤ 1 := by
    unfold Session.load
    split_ifs <;> omega
  have hd := EventWorker.dataEvent_digested cfg env data old
  generalize EventWorker.dataEvent cfg env data old = r at hd
  cases hd with
  | other => simp
  | awaited => exact (Nat.zero_add _).ge
  | rejected =>
    rw [EventWorker.completed_parseError]
    exact hload.trans (Nat.le_add_right _ _)
  | finished =>
    rw [EventWorker.completed_response]
    exact hload.trans (Nat.le_add_right _ _)

theorem inHand_congr {w w' : EventWorker} (h : w.ctl = w'.ctl) :
    (Body.event w).inHand = (Body.event w').inHand := by
  simp only [Body.inHand, h]

variable {n : ℕ} {env : Env} {sh : Shared n}

/-- A request the worker is granted is in hand, in flight or about to be counted as completed, and
it leaves these only by being counted. -/
theorem pays_event {i : Fin n} {w : EventWorker} {r : Shared n × List Op × EventWorker}
    (hm : w.Move cfg i env sh r) (h : w.Seated (cfg.perWorker i)) :
    r.2.2.granted + (inFlightOf w.sessions + (Body.event w).inHand) ≤
      w.granted + (owed .completed r.2.1 + inFlightOf r.2.2.sessions
        + (Body.event r.2.2).inHand) := by
  have hidle : ∀ {ctl : EventCtl}, w.ctl = ctl → (Body.event { ctl := ctl }).inHand = 0 →
      (Body.event w).inHand = 0 := by
    intro ctl hc hzero
    exact (@inHand_congr w { ctl := ctl } hc).trans hzero
  -- Most steps leave the sessions alone and have no request in hand.
  have hsame : ∀ (ops : List Op) (w' : EventWorker), w'.granted = w.granted →
      w'.sessions = w.sessions → (Body.event w).inHand ≤ (Body.event w').inHand →
      w'.granted + (inFlightOf w.sessions + (Body.event w).inHand) ≤
        w.granted + (owed .completed ops + inFlightOf w'.sessions + (Body.event w').inHand) := by
    intro ops w' hg hs hle
    rw [hg, hs]
    omega
  have hopen : ∀ {next : EventCtl}, EventWorker.Opens w.ctl next →
      (Body.event w).inHand = 0 := by
    intro next hopens
    generalize hc : w.ctl = ctl at hopens
    cases hopens <;> exact hidle hc rfl
  cases hm with
  | goes hg =>
    cases hg with
    | @gone now id todo hc hl =>
      -- The session that was picked is still there.
      obtain ⟨s, hs, -⟩ := h.picked id (by simp [EventWorker.picked, hc])
      rw [hl] at hs
      cases hs
    | enter hc | sweep _ _ hc | swept hc | skip hc | pick hc | handled hc | unknown hc | stay hc =>
      exact hsame _ _ rfl rfl (hidle hc rfl).le
  | @opened next session hopens hok =>
    have hzero := hopen hopens
    have hid := ((EventWorker.submitConnection_opening cfg env.submit w.net).ok hok).1
    have hput := @inFlightOf_put w.sessions
      (EventWorker.submitConnection cfg env.submit w.net).2.2
      { session with
        connId := (EventWorker.submitConnection cfg env.submit w.net).2.2
        inFlight := false
        parser := {} } fun old hl => by
          have hlt := (h.below _ _ hl).2
          omega
    dsimp only
    rw [hput]
    omega
  | notOpened hopens => exact hsame _ _ rfl rfl ((hopen hopens).trans_le (Nat.zero_le _))
  | granted hc =>
    have hzero := hidle hc rfl
    show w.granted + 1 + (inFlightOf w.sessions + (Body.event w).inHand)
      ≤ w.granted + (0 + inFlightOf w.sessions + 1)
    omega
  | waits token hc | waited token hc => exact hsame _ _ rfl rfl (inHand_waiting hc).le
  | sent hc =>
    have hone := inHand_sending hc
    have howed :=
      EventWorker.completed_sent env.nowNs env.laterNs (buildPayload cfg).length
    dsimp only
    omega
  | @requested id now todo s hc hl _ _ =>
    have hone := inHand_sending hc
    obtain ⟨s', hs', hfree⟩ := h.picked id (by simp [EventWorker.picked, hc])
    have hput := @inFlightOf_put w.sessions id
      { s with inFlight := true, requestBeginNs := env.nowNs } fun old hold => by
        rw [hs'] at hold
        cases hold
        exact hfree
    have hload : Session.load { s with inFlight := true, requestBeginNs := env.nowNs } = 1 := rfl
    dsimp only
    rw [hput]
    omega
  | @sendFailed id now todo s hc _ _ =>
    have hone := inHand_sending hc
    have howed := EventWorker.completed_sendFailed env.nowNs
      (w.net.send s.connId (buildPayload cfg) env.submit).2
    dsimp only
    omega
  | @errored ev events old hc hl _ =>
    have hzero := hidle hc rfl
    have herase := inFlightOf_erase hl
    have howed := EventWorker.completed_error cfg env ev.error old
    dsimp only
    omega
  | @received ev events old hc hl _ =>
    have hzero := hidle hc rfl
    have herase := inFlightOf_erase hl
    have hkey : (EventWorker.dataEvent cfg env ev.data old).2.connId = ev.connId :=
      (EventWorker.dataEvent_connId cfg env ev.data old).trans (h.keyed _ _ hl)
    have hput := @inFlightOf_put (w.sessions.erase ev.connId)
      (EventWorker.dataEvent cfg env ev.data old).2.connId
      (EventWorker.dataEvent cfg env ev.data old).2 fun old' hold => by
        rw [hkey, AList.lookup_erase] at hold
        cases hold
    have hpays := dataEvent_pays cfg env ev.data old
    have howed := EventWorker.completed_received ev.data.length
      (EventWorker.dataEvent cfg env ev.data old).1
    dsimp only
    rw [hput]
    omega
  | acquires hc | refused hc | polled hc | retried hc | givenUp hc | closed hc | returned hc
  | stopped hc | started hc | notStarted hc | pollFailed hc =>
    exact hsame _ _ rfl rfl (hidle hc rfl).le

/-- What a thread holds of the requests it was granted: those about to be counted as completed,
those in flight and the one it has not issued yet. -/
def holding (t : Thread) : ℕ := owed .completed t.ops + t.body.inFlight + t.body.inHand

/-- No step loses a request. -/
theorem Move.pays_request {i : Option (Fin n)} {t : Thread} {r : Shared n × Thread}
    (hm : Move cfg env sh i t r) (hslot : ∀ s, t.body ≠ .slot s)
    (h : ∀ k, i = some k → t.body.Seated (cfg.perWorker k)) :
    r.2.body.granted + (sh.counters .completed + holding t)
      ≤ t.body.granted + (r.1.counters .completed + holding r.2) := by
  unfold holding
  cases hm with
  | op body hx =>
    have hpays := hx.pays .completed
    dsimp only
    omega
  | @main m r hr =>
    have hf := mainStep_frame cfg env sh m
    rw [← hr] at hf
    rw [hf.counters]
    rcases hf.ops with hops | hops <;> rw [hops] <;> exact le_rfl
  | @event i w r hm =>
    have hpays := pays_event hm (h i rfl)
    have hcount := hm.counters (c := .completed) (by decide)
    show r.2.2.granted + (sh.counters .completed + (0 + inFlightOf w.sessions
        + (Body.event w).inHand))
      ≤ w.granted + (r.1.counters .completed + (owed .completed r.2.1 + inFlightOf r.2.2.sessions
        + (Body.event r.2.2).inHand))
    omega
  | slot => exact absurd rfl (hslot _)
  | stay => exact le_rfl

/-! ## No started request is forgotten -/

/-- In every state the requests granted are completed, or some thread holds them. -/
theorem Runs.started_le (hp : cfg.protocol ≠ .https) (hreq : cfg.hasRequests = true)
    (h : Runs cfg beginNs c) :
    c.shared.counters .started ≤ c.shared.counters .completed + ∑ i, holding (c.locals i) := by
  have hbooks := h.account_le (v := fun _ => 0) (u := fun sh => sh.counters .completed)
    (p := fun _ t => t.body.granted) (q := fun _ t => holding t)
    (by simp only [granted_init, Finset.sum_const_zero]; exact Nat.zero_le _)
    fun c i e hc _ => by
      have hruns : Runs cfg beginNs c := hc
      have hpays := (step_move cfg i e c.shared (c.locals i)).pays_request (hruns.not_slot hp i)
        fun k hk => hk ▸ hruns.seated k
      omega
  rw [Nat.zero_add, ← h.started_eq_granted hreq] at hbooks
  exact hbooks

theorem holding_between {t : Thread} (hslot : ∀ s, t.body ≠ .slot s) (h : t.Between) :
    holding t = t.body.inFlight := by
  obtain ⟨hops, hctl⟩ := h
  have hhand : t.body.inHand = 0 := by
    cases hb : t.body with
    | main m => rfl
    | slot s => exact absurd hb (hslot s)
    | event w =>
      rw [hb] at hctl
      cases hc : w.ctl <;> simp_all [Body.inHand, EventCtl.between]
  unfold holding
  rw [hops, hhand]
  exact Nat.zero_add _

/-- The main thread holds no request. -/
theorem Runs.holding_main (h : Runs cfg beginNs c) : holding (c.locals none) = 0 := by
  obtain ⟨m, hm⟩ := h.main_body
  have howed : owed .completed (c.locals none).ops = 0 := weigh_mainOps rfl h.mainOps
  unfold holding
  rw [hm, show owed .completed (c.locals none).ops = 0 from howed]
  rfl

/-- **No started request is forgotten.** With http, tcp or udp, in requests mode: whenever all
workers are between two iterations of their loops, `started_requests` is at most the completed
requests plus the sessions with a request in flight. So it is when the run is over, and then the
final report shows it. There are never more such sessions than connections were asked for. -/
theorem no_request_forgotten (cfg : Config) (hp : cfg.protocol ≠ .https)
    (hreq : cfg.hasRequests = true) {beginNs : ℕ} {c : Conf cfg.threadCount}
    (h : Runs cfg beginNs c) :
    ((∀ i, (c.locals (some i)).Between) →
      c.shared.counters .started
        ≤ c.shared.counters .completed + ∑ i, (c.locals (some i)).body.inFlight) ∧
    ((∀ i, c.shared.running i = false) →
      c.shared.counters .started - c.shared.counters .completed
        ≤ ∑ i, (c.locals (some i)).body.inFlight) ∧
    (∀ m, (c.locals none).body = .main m → m.ctl = .done →
      m.report.counters .started - m.report.counters .completed
        ≤ ∑ i, (c.locals (some i)).body.inFlight) ∧
    ∑ i, (c.locals (some i)).body.inFlight ≤ cfg.concurrency.toNat := by
  have hbetween : (∀ i, (c.locals (some i)).Between) →
      c.shared.counters .started
        ≤ c.shared.counters .completed + ∑ i, (c.locals (some i)).body.inFlight := by
    intro hall
    have hle := h.started_le hp hreq
    rw [Fintype.sum_option, h.holding_main, Nat.zero_add] at hle
    have hsum : ∑ i, holding (c.locals (some i)) = ∑ i, (c.locals (some i)).body.inFlight :=
      Finset.sum_congr rfl fun i _ => holding_between (h.not_slot hp (some i)) (hall i)
    rwa [hsum] at hle
  have hover : (∀ i, c.shared.running i = false) →
      c.shared.counters .started - c.shared.counters .completed
        ≤ ∑ i, (c.locals (some i)).body.inFlight := by
    intro hjoined
    have hle := hbetween fun i => by
      obtain ⟨hops, hexit⟩ := h.exited i (hjoined i)
      refine ⟨hops, ?_⟩
      cases hb : (c.locals (some i)).body with
      | event w =>
        rw [hb] at hexit
        show w.ctl.between = true
        rw [show w.ctl = .exited from hexit]
        rfl
      | _ => trivial
    omega
  refine ⟨hbetween, hover, fun m hm hdone => ?_, ?_⟩
  · have hok := h.mainOk hm
    have hfinal : m.ctl.final = true := by rw [hdone]; rfl
    have hread := fun k => hok.read hfinal k (by rw [hdone]; exact List.not_mem_nil)
    rw [hread, hread]
    exact hover (hok.joined hfinal)
  · exact (Finset.sum_le_sum fun i _ => (c.locals (some i)).body.inFlight_le).trans
      (h.sessions_le hp)

/-- The worker has sent one of its two requests when `epoll_wait` fails and ends the run. -/
def unanswered : Conf twoRequests.threadCount :=
  (init twoRequests 0).run (step twoRequests)
    (exchange [] 4 ++ [(firstWorker, { poll := { wait := .failed } })]
      ++ List.replicate 5 (firstWorker, ({} : Env)))

theorem no_request_forgotten_unanswered :
    unanswered.shared.counters .started = 1 ∧ unanswered.shared.counters .completed = 0 ∧
      1 - 0 ≤ ∑ i, (unanswered.locals (some i)).body.inFlight ∧
      ∑ i, (unanswered.locals (some i)).body.inFlight ≤ 1 := by
  have hrun : Runs twoRequests 0 unanswered := reachable_run _
  obtain ⟨-, hover, -, hmax⟩ := no_request_forgotten twoRequests (by decide) rfl hrun
  have hstarted : unanswered.shared.counters .started = 1 := by decide +kernel
  have hcompleted : unanswered.shared.counters .completed = 0 := by decide +kernel
  have hleft := hover (by decide +kernel)
  rw [hstarted, hcompleted] at hleft
  exact ⟨hstarted, hcompleted, hleft, hmax⟩

end Engine

end TitanBench
