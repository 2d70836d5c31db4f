import Mathlib.Data.Fintype.Option
import TitanBench.Engine

/-!
# What a step of the engine can do

The proofs about runs of the engine never unfold its step function. They go through the cases of

* `EventWorker.Move`, `Digested` — a step of an event-driven worker, a data event.
* `Slot.Move` — a step of an https slot.
* `Main.Frame` — what a step of the main thread leaves alone.
* `Engine.Move` — a step of any thread.

`weigh` counts what the operations a thread has still to execute will do; `Op.Exec.pays` says that
executing one pays it out.
-/

namespace TitanBench

variable {n : ℕ}

/-! ## Operations -/

/-- The total weight of some operations. -/
def weigh (f : Op → ℕ) (ops : List Op) : ℕ := (ops.map f).sum

@[simp] theorem weigh_nil (f : Op → ℕ) : weigh f [] = 0 := rfl

@[simp] theorem weigh_cons (f : Op → ℕ) (op : Op) (ops : List Op) :
    weigh f (op :: ops) = f op + weigh f ops := by
  simp [weigh]

@[simp] theorem weigh_append (f : Op → ℕ) (ops ops' : List Op) :
    weigh f (ops ++ ops') = weigh f ops + weigh f ops' := by
  simp [weigh]

/-- What the operation adds to counter `c`. -/
def Op.adds (c : Counter) : Op → ℕ
  | .add c' k => if c' = c then k else 0
  | _ => 0

/-- What the operations have still to add to counter `c`. -/
abbrev owed (c : Counter) (ops : List Op) : ℕ := weigh (Op.adds c) ops

@[simp] theorem Op.adds_add (c c' : Counter) (k : ℕ) :
    Op.adds c (.add c' k) = if c' = c then k else 0 := rfl

@[simp] theorem Op.adds_storeStop (c : Counter) : Op.adds c .storeStop = 0 := rfl

@[simp] theorem Op.adds_record (c : Counter) (s : RequestSample) : Op.adds c (.record s) = 0 := rfl

@[simp] theorem Op.adds_recording (c : Counter) : Op.adds c .recording = 0 := rfl

@[simp] theorem Shared.set_counters (sh : Shared n) (c c' : Counter) (value : ℕ) :
    (sh.set c value).counters c' = if c' = c then value else sh.counters c' := by
  simp [Shared.set, Function.update_apply]

@[simp] theorem Shared.set_stop (sh : Shared n) (c : Counter) (value : ℕ) :
    (sh.set c value).stop = sh.stop := rfl

@[simp] theorem Shared.set_stats (sh : Shared n) (c : Counter) (value : ℕ) :
    (sh.set c value).stats = sh.stats := rfl

/-- Everything the next step of an operation can do. -/
inductive Op.Exec (sh : Shared n) (rest : List Op) : Option (Fin n) → Op → Shared n × List Op → Prop
  | add (i : Option (Fin n)) (c : Counter) (k : ℕ) :
      Exec sh rest i (.add c k) (sh.set c (sh.counters c + k), rest)
  | storeStop (i : Option (Fin n)) : Exec sh rest i .storeStop ({ sh with stop := true }, rest)
  | record (i : Fin n) (s : RequestSample) :
      Exec sh rest (some i) (.record s)
        ({ sh with stats := sh.stats.recordStep i s }, .recording :: rest)
  | recording (i : Fin n) : (sh.stats.writers i).pc ≠ .idle →
      Exec sh rest (some i) .recording
        ({ sh with stats := sh.stats.recordStep i {} }, .recording :: rest)
  | recorded (i : Fin n) : (sh.stats.writers i).pc = .idle →
      Exec sh rest (some i) .recording (sh, rest)
  | main (op : Op) : (∀ c k, op ≠ .add c k) → op ≠ .storeStop → Exec sh rest none op (sh, rest)

theorem execOp_exec (i : Option (Fin n)) (op : Op) (rest : List Op) (sh : Shared n) :
    op.Exec sh rest i (execOp i op rest sh) := by
  cases op with
  | add c k => exact .add i c k
  | storeStop => exact .storeStop i
  | record s =>
    cases i with
    | none => exact .main _ (fun _ _ h => nomatch h) (fun h => nomatch h)
    | some i => exact .record i s
  | recording =>
    cases i with
    | none => exact .main _ (fun _ _ h => nomatch h) (fun h => nomatch h)
    | some i =>
      by_cases hpc : (sh.stats.writers i).pc = .idle
      · rw [execOp, if_pos hpc]
        exact .recorded i hpc
      · rw [execOp, if_neg hpc]
        exact .recording i hpc

/-- What a step of thread `i` may do to the collector: only workers record, and only the main
thread drains. -/
inductive Collector.Turn (c : Collector (Fin n)) : Option (Fin n) → Collector (Fin n) → Prop
  | same (i : Option (Fin n)) : Turn c i c
  | create (i : Fin n) : Turn c (some i) (c.createWriter i)
  | record (i : Fin n) (s : RequestSample) : Turn c (some i) (c.recordStep i s)
  | drain (nowNs : ℕ) : Turn c none (c.drainStep nowNs)

variable {sh : Shared n} {rest : List Op} {i : Option (Fin n)} {op : Op} {r : Shared n × List Op}

/-- Executing an operation pays out what it owes. -/
theorem Op.Exec.pays (h : op.Exec sh rest i r) (c : Counter) :
    r.1.counters c + owed c r.2 = sh.counters c + owed c (op :: rest) := by
  cases h with
  | add i c' k =>
    simp only [Shared.set_counters, weigh_cons, Op.adds_add]
    by_cases hc : c = c'
    · subst hc
      rw [if_pos rfl, if_pos rfl, Nat.add_assoc]
    · rw [if_neg hc, if_neg (Ne.symm hc), Nat.zero_add]
  | main op hadd hstop =>
    cases op with
    | add c' k => exact absurd rfl (hadd c' k)
    | _ => simp
  | _ => simp

theorem Op.Exec.counters_le (h : op.Exec sh rest i r) (c : Counter) :
    sh.counters c ≤ r.1.counters c := by
  cases h with
  | add i c' k =>
    simp only [Shared.set_counters]
    split_ifs with hc
    · subst hc
      exact Nat.le_add_right _ _
    · exact le_rfl
  | _ => exact le_rfl

/-- A stop that is set stays set, and one that is to be stored will be. -/
theorem Op.Exec.stop (h : op.Exec sh rest i r) (hs : sh.stop = true ∨ .storeStop ∈ op :: rest) :
    r.1.stop = true ∨ .storeStop ∈ r.2 := by
  cases h with
  | storeStop i => exact .inl rfl
  | main op hadd hstop =>
    cases op with
    | storeStop => exact absurd rfl hstop
    | _ => simpa using hs
  | _ => simpa using hs

theorem Op.Exec.turn (h : op.Exec sh rest i r) : sh.stats.Turn i r.1.stats := by
  cases h with
  | record i s => exact .record i s
  | recording i => exact .record i {}
  | _ => exact .same _

theorem Op.Exec.running (h : op.Exec sh rest i r) : r.1.running = sh.running := by
  cases h <;> rfl

/-! ## Event-driven workers -/

/-- A worker has not started its `NetWorker` yet, works with it, or is done with it. -/
inductive Phase
  | before
  | during
  | after
  deriving DecidableEq

def EventCtl.phase : EventCtl → Phase
  | .start => .before
  | .returning | .exited => .after
  | _ => .during

namespace EventWorker

/-- The steps that only go to another place in the code. -/
inductive Goes (w : EventWorker) : EventCtl → Prop
  | enter : w.ctl = .connecting 0 → Goes w .loopTop
  | sweep (now : ℕ) (todo : List ℕ) : w.ctl = .loopTop → Goes w (.visiting now todo)
  | swept {now : ℕ} : w.ctl = .visiting now [] → Goes w .polling
  | skip {now id : ℕ} {todo : List ℕ} :
      w.ctl = .visiting now (id :: todo) → Goes w (.visiting now todo)
  | pick {now id : ℕ} {todo : List ℕ} {s : Session} :
      w.ctl = .visiting now (id :: todo) → w.sessions.lookup id = some s → s.inFlight = false →
      Goes w (.acquiring id .load now todo)
  | gone {now id : ℕ} {todo : List ℕ} :
      w.ctl = .sending id now todo → w.sessions.lookup id = none → Goes w (.visiting now todo)
  | handled : w.ctl = .handling [] → Goes w .loopTop
  | unknown {ev : RecvEvent} {events : List RecvEvent} :
      w.ctl = .handling (ev :: events) → w.sessions.lookup ev.connId = none →
      Goes w (.handling events)
  | stay : w.ctl = .exited → Goes w .exited

/-- Where a worker creates a connection, and where it goes on. -/
inductive Opens : EventCtl → EventCtl → Prop
  | first (left : ℕ) : Opens (.connecting (left + 1)) (.connecting left)
  | again (old : Session) (events : List RecvEvent) :
      Opens (.reconnecting old events) (.handling events)

theorem Opens.next {ctl next : EventCtl} (h : Opens ctl next) :
    (∃ left, next = .connecting left) ∨ ∃ events, next = .handling events := by
  cases h with
  | first left => exact .inl ⟨left, rfl⟩
  | again old events => exact .inr ⟨events, rfl⟩

theorem Goes.phase {w : EventWorker} {ctl : EventCtl} (h : w.Goes ctl) :
    ctl.phase = w.ctl.phase := by
  cases h with
  | enter hc => rw [hc]; rfl
  | sweep _ _ hc => rw [hc]; rfl
  | pick hc => rw [hc]; rfl
  | gone hc => rw [hc]; rfl
  | unknown hc => rw [hc]; rfl
  | stay hc => rw [hc]
  | _ hc => rw [hc]; rfl

theorem Opens.phase {ctl next : EventCtl} (h : Opens ctl next) :
    ctl.phase = .during ∧ next.phase = .during := by
  cases h <;> exact ⟨rfl, rfl⟩

/-- Everything one step of a worker can do. -/
inductive Move (cfg : Config) (i : Fin n) (env : Env) (sh : Shared n) (w : EventWorker) :
    Shared n × List Op × EventWorker → Prop
  | goes {ctl : EventCtl} : w.Goes ctl → Move cfg i env sh w (sh, [], w.goto ctl)
  | stopped : w.ctl = .loopTop → sh.stop = true → Move cfg i env sh w (sh, [], w.goto .closing)
  | started : w.ctl = .start → (w.net.start env.start).2 = .ok →
      Move cfg i env sh w
        ({ sh with stats := sh.stats.createWriter i }, [],
          { w with net := (w.net.start env.start).1, ctl := .connecting (cfg.perWorker i) })
  | notStarted : w.ctl = .start → (w.net.start env.start).2 ≠ .ok →
      Move cfg i env sh w
        (sh, [.storeStop], { w with net := (w.net.start env.start).1, ctl := .returning })
  | opened {next : EventCtl} (session : Session) : Opens w.ctl next →
      (submitConnection cfg env.submit w.net).2.1 = .ok →
      Move cfg i env sh w
        (sh, [],
          { w with
            net := (submitConnection cfg env.submit w.net).1
            sessions := w.sessions.insert (submitConnection cfg env.submit w.net).2.2
              { session with
                connId := (submitConnection cfg env.submit w.net).2.2
                inFlight := false
                parser := {} }
            ctl := next })
  | notOpened {next : EventCtl} : Opens w.ctl next →
      Move cfg i env sh w
        (sh, [.storeStop],
          { w with net := (submitConnection cfg env.submit w.net).1, ctl := .loopTop })
  | acquires {id now started : ℕ} {pc pc' : QuotaPc} {todo : List ℕ} :
      w.ctl = .acquiring id pc now todo →
      quotaStep cfg env.spurious (sh.counters .started) pc = (started, .inl pc') →
      Move cfg i env sh w (sh.set .started started, [], w.goto (.acquiring id pc' now todo))
  | refused {id now started : ℕ} {pc : QuotaPc} {todo : List ℕ} :
      w.ctl = .acquiring id pc now todo →
      quotaStep cfg env.spurious (sh.counters .started) pc = (started, .inr false) →
      Move cfg i env sh w (sh.set .started started, [], w.goto (.visiting now todo))
  | granted {id now started : ℕ} {pc : QuotaPc} {todo : List ℕ} :
      w.ctl = .acquiring id pc now todo →
      quotaStep cfg env.spurious (sh.counters .started) pc = (started, .inr true) →
      Move cfg i env sh w
        (sh.set .started started, [],
          { w with granted := w.granted + 1, ctl := .waiting id .readClock now todo })
  | waits {id now : ℕ} {pc pc' : RatePc} {todo : List ℕ} (token : ℤ) :
      w.ctl = .waiting id pc now todo →
      Move cfg i env sh w
        ({ sh with nextTokenNs := token }, [], w.goto (.waiting id pc' now todo))
  | waited {id now : ℕ} {pc : RatePc} {todo : List ℕ} (token : ℤ) :
      w.ctl = .waiting id pc now todo →
      Move cfg i env sh w ({ sh with nextTokenNs := token }, [], w.goto (.sending id now todo))
  | sent {id now : ℕ} {todo : List ℕ} {s : Session} :
      w.ctl = .sending id now todo → w.sessions.lookup id = some s →
      (w.net.send s.connId (buildPayload cfg) env.submit).2 = .ok →
      cfg.protocol = .tcp ∨ cfg.protocol = .udp →
      Move cfg i env sh w
        (sh,
          .add .bytesSent (buildPayload cfg).length ::
            sendDoneOps env.nowNs env.laterNs (buildPayload cfg).length,
          { w with
            net := (w.net.send s.connId (buildPayload cfg) env.submit).1
            sends := w.sends + 1
            ctl := .visiting now todo })
  | requested {id now : ℕ} {todo : List ℕ} {s : Session} :
      w.ctl = .sending id now todo → w.sessions.lookup id = some s →
      (w.net.send s.connId (buildPayload cfg) env.submit).2 = .ok →
      ¬ (cfg.protocol = .tcp ∨ cfg.protocol = .udp) →
      Move cfg i env sh w
        (sh, [.add .bytesSent (buildPayload cfg).length],
          { w with
            net := (w.net.send s.connId (buildPayload cfg) env.submit).1
            sends := w.sends + 1
            sessions := w.sessions.insert id
              { s with inFlight := true, requestBeginNs := env.nowNs }
            ctl := .visiting now todo })
  | sendFailed {id now : ℕ} {todo : List ℕ} {s : Session} :
      w.ctl = .sending id now todo → w.sessions.lookup id = some s →
      (w.net.send s.connId (buildPayload cfg) env.submit).2 ≠ .ok →
      Move cfg i env sh w
        (sh, sendFailedOps env.nowNs (w.net.send s.connId (buildPayload cfg) env.submit).2,
          { w with
            net := (w.net.send s.connId (buildPayload cfg) env.submit).1
            sends := w.sends + 1
            ctl := .visiting now todo })
  | polled : w.ctl = .polling →
      (NetWorker.pollOnce env.poll { w.net with recvEvents := [] }).2 = .ok →
      Move cfg i env sh w
        (sh, [],
          { w with
            net := (NetWorker.pollOnce env.poll { w.net with recvEvents := [] }).1
            ctl := .handling
              (NetWorker.pollOnce env.poll { w.net with recvEvents := [] }).1.recvEvents })
  | pollFailed : w.ctl = .polling →
      Move cfg i env sh w
        (sh, [.storeStop],
          { w with
            net := (NetWorker.pollOnce env.poll { w.net with recvEvents := [] }).1
            ctl := .closing })
  | errored {ev : RecvEvent} {events : List RecvEvent} {old : Session} :
      w.ctl = .handling (ev :: events) → w.sessions.lookup ev.connId = some old →
      ev.isError = true →
      Move cfg i env sh w
        (sh, errorOps cfg env ev.error old,
          { w with sessions := w.sessions.erase ev.connId, ctl := .retrying old events })
  | received {ev : RecvEvent} {events : List RecvEvent} {old : Session} :
      w.ctl = .handling (ev :: events) → w.sessions.lookup ev.connId = some old →
      ev.isError = false →
      Move cfg i env sh w
        (sh, .add .bytesReceived ev.data.length :: (dataEvent cfg env ev.data old).1,
          { w with
            sessions := (w.sessions.erase ev.connId).insert
              (dataEvent cfg env ev.data old).2.connId (dataEvent cfg env ev.data old).2
            ctl := .handling events })
  | retried {old : Session} {events : List RecvEvent} :
      w.ctl = .retrying old events → old.retries < maxRetryPerSession → sh.stop = false →
      Move cfg i env sh w
        (sh, [.add .retried 1],
          w.goto (.reconnecting { old with retries := old.retries + 1 } events))
  | givenUp {old : Session} {events : List RecvEvent} :
      w.ctl = .retrying old events → ¬ (old.retries < maxRetryPerSession ∧ sh.stop = false) →
      Move cfg i env sh w (sh, [], w.goto (.handling events))
  | closed : w.ctl = .closing → Move cfg i env sh w (sh, [], w.closeAll env)
  | returned : w.ctl = .returning →
      Move cfg i env sh w
        ({ sh with running := Function.update sh.running i false }, [], w.goto .exited)

/-- `createConnection`, with its two results written out. -/
theorem createConnection_eq (cfg : Config) (session : Session) (sys : SubmitSys)
    (w : EventWorker) :
    w.createConnection cfg session sys =
      if (submitConnection cfg sys w.net).2.1 = .ok then
        ({ w with
            net := (submitConnection cfg sys w.net).1
            sessions := w.sessions.insert (submitConnection cfg sys w.net).2.2
              { session with
                connId := (submitConnection cfg sys w.net).2.2
                inFlight := false
                parser := {} } }, true)
      else ({ w with net := (submitConnection cfg sys w.net).1 }, false) := by
  unfold createConnection
  obtain ⟨net, ec, id⟩ := submitConnection cfg sys w.net
  cases ec <;> rfl

variable {cfg : Config} {i : Fin n} {env : Env} {sh : Shared n} {w : EventWorker}

/-- The steps of `sending`. -/
theorem move_sending {id now : ℕ} {todo : List ℕ} {s : Session}
    (hc : w.ctl = .sending id now todo) (hs : w.sessions.lookup id = some s) :
    Move cfg i env sh w
      (sh, (w.sendRequest cfg env id s).1,
        (w.sendRequest cfg env id s).2.goto (.visiting now todo)) := by
  have hsent := @Move.sent n cfg i env sh w id now todo s hc hs
  have hreq := @Move.requested n cfg i env sh w id now todo s hc hs
  have hfail := @Move.sendFailed n cfg i env sh w id now todo s hc hs
  unfold sendRequest
  dsimp only
  revert hsent hreq hfail
  obtain ⟨net, ec⟩ := w.net.send s.connId (buildPayload cfg) env.submit
  intro hsent hreq hfail
  cases ec with
  | ok =>
    by_cases hp : cfg.protocol = .tcp ∨ cfg.protocol = .udp
    · dsimp only
      rw [if_pos hp]
      exact hsent rfl hp
    · dsimp only
      rw [if_neg hp]
      exact hreq rfl hp
  | _ => exact hfail (fun h => nomatch h)

/-- Every step of a worker is one of the cases. -/
theorem eventStep_move (cfg : Config) (i : Fin n) (env : Env) (sh : Shared n) (w : EventWorker) :
    Move cfg i env sh w (eventStep cfg i env sh w) := by
  unfold eventStep
  cases hc : w.ctl with
  | start =>
    have hok := @Move.started n cfg i env sh w hc
    have hfail := @Move.notStarted n cfg i env sh w hc
    revert hok hfail
    dsimp only
    obtain ⟨net, ec⟩ := w.net.start env.start
    intro hok hfail
    cases ec with
    | ok => exact hok rfl
    | _ => exact hfail (fun h => nomatch h)
  | connecting left =>
    cases left with
    | zero => exact .goes (.enter hc)
    | succ left =>
      have hopens : Opens w.ctl (.connecting left) := hc ▸ Opens.first left
      dsimp only
      rw [createConnection_eq]
      split_ifs with hok
      · exact .opened _ hopens hok
      · exact .notOpened hopens
  | loopTop =>
    dsimp only
    split_ifs with hs
    · exact .stopped hc hs
    · exact .goes (.sweep _ _ hc)
  | visiting now todo =>
    cases todo with
    | nil => exact .goes (.swept hc)
    | cons id todo =>
      dsimp only
      cases hl : w.sessions.lookup id with
      | none => exact .goes (.skip hc)
      | some s =>
        dsimp only
        split_ifs with hskip
        · exact .goes (.skip hc)
        · refine .goes (.pick hc hl ?_)
          simpa using fun h => hskip (.inr (.inl h))
  | acquiring id pc now todo =>
    dsimp only
    cases hq : quotaStep cfg env.spurious (sh.counters .started) pc with
    | mk started result =>
      cases result with
      | inl pc' => exact .acquires hc hq
      | inr granted =>
        cases granted with
        | false => exact .refused hc hq
        | true => exact .granted hc hq
  | waiting id pc now todo =>
    dsimp only
    cases rateStep cfg.rateIntervalNs env.nowNs env.spurious sh.nextTokenNs pc with
    | mk token pc' =>
      cases pc' with
      | some pc' => exact .waits token hc
      | none => exact .waited token hc
  | sending id now todo =>
    dsimp only
    cases hl : w.sessions.lookup id with
    | none => exact .goes (.gone hc hl)
    | some s => exact move_sending hc hl
  | polling =>
    have hok := @Move.polled n cfg i env sh w hc
    have hfail := @Move.pollFailed n cfg i env sh w hc
    revert hok hfail
    dsimp only
    obtain ⟨net, ec⟩ := NetWorker.pollOnce env.poll { w.net with recvEvents := [] }
    intro hok hfail
    cases ec with
    | ok => exact hok rfl
    | _ => exact hfail
  | handling events =>
    cases events with
    | nil => exact .goes (.handled hc)
    | cons ev events =>
      dsimp only
      unfold handleEvent
      cases hl : w.sessions.lookup ev.connId with
      | none => exact .goes (.unknown hc hl)
      | some old =>
        cases herr : ev.isError with
        | true => exact .errored hc hl herr
        | false => exact .received hc hl herr
  | retrying old events =>
    dsimp only
    split_ifs with hr
    · exact .retried hc hr.1 hr.2
    · exact .givenUp hc hr
  | reconnecting old events =>
    have hopens : Opens w.ctl (.handling events) := hc ▸ Opens.again old events
    dsimp only
    rw [createConnection_eq]
    split_ifs with hok
    · exact .opened _ hopens hok
    · exact .notOpened hopens
  | closing => exact .closed hc
  | returning => exact .returned hc
  | exited => simpa only [goto, ← hc] using Move.goes (.stay hc)

/-- The counters but `started` are left to the operations. -/
theorem Move.counters {r : Shared n × List Op × EventWorker} (h : Move cfg i env sh w r)
    {c : Counter} (hc : c ≠ .started) : r.1.counters c = sh.counters c := by
  cases h with
  | acquires | refused | granted => exact (Shared.set_counters _ _ _ _).trans (if_neg hc)
  | _ => rfl

theorem Move.stop {r : Shared n × List Op × EventWorker} (h : Move cfg i env sh w r) :
    r.1.stop = sh.stop := by
  cases h <;> rfl

/-- What the bytes `data` do to session `old`. -/
inductive Digested (cfg : Config) (env : Env) (data : Bytes) (old : Session) :
    List Op × Session → Prop
  | other : cfg.protocol ≠ .http → Digested cfg env data old ([], old)
  | rejected : cfg.protocol = .http → (old.parser.feed data).2 = false →
      Digested cfg env data old
        (parseErrorOps cfg env data
            { old with parser := (old.parser.feed data).1, inFlight := false },
          { old with parser := (old.parser.feed data).1, inFlight := false })
  | finished : cfg.protocol = .http → (old.parser.feed data).2 = true →
      (old.parser.feed data).1.done = true →
      Digested cfg env data old
        (responseOps cfg env data { old with parser := {}, inFlight := false, retries := 0 }
            (old.parser.feed data).1.response.statusCode,
          { old with parser := {}, inFlight := false, retries := 0 })
  | awaited : cfg.protocol = .http → (old.parser.feed data).2 = true →
      (old.parser.feed data).1.done = false →
      Digested cfg env data old ([], { old with parser := (old.parser.feed data).1 })

theorem dataEvent_digested (cfg : Config) (env : Env) (data : Bytes) (old : Session) :
    Digested cfg env data old (dataEvent cfg env data old) := by
  unfold dataEvent
  by_cases hp : cfg.protocol = .http
  · have hrej := @Digested.rejected cfg env data old hp
    have hfin := @Digested.finished cfg env data old hp
    have hwait := @Digested.awaited cfg env data old hp
    rw [if_pos hp]
    revert hrej hfin hwait
    obtain ⟨parser, ok⟩ := old.parser.feed data
    intro hrej hfin hwait
    cases ok with
    | false => exact hrej rfl
    | true =>
      dsimp only
      split_ifs with hd
      · exact hfin rfl hd
      · exact hwait rfl (by simpa using hd)
  · rw [if_neg hp]
    exact .other hp

/-- A response is completed, and by its status succeeded or failed. -/
theorem owed_response (cfg : Config) (env : Env) (data : Bytes) (s : Session) (status : ℤ)
    (c : Counter) :
    owed c (responseOps cfg env data s status) =
      if c = .completed then 1
      else if c = .succeeded then (if 0 < status ∧ status < 400 then 1 else 0)
      else if c = .failed then (if 0 < status ∧ status < 400 then 0 else 1)
      else 0 := by
  by_cases hok : 0 < status ∧ status < 400 <;> cases c <;> simp [responseOps, hok]

theorem Move.turn {r : Shared n × List Op × EventWorker} (h : Move cfg i env sh w r) :
    sh.stats.Turn (some i) r.1.stats := by
  cases h with
  | started => exact .create i
  | _ => exact .same _

theorem Move.running {r : Shared n × List Op × EventWorker} (h : Move cfg i env sh w r) :
    r.1.running = sh.running ∨
      (r.1.running = Function.update sh.running i false ∧ r.2.1 = [] ∧ r.2.2.ctl = .exited) := by
  cases h with
  | returned => exact .inr ⟨rfl, rfl, rfl⟩
  | _ => exact .inl rfl

end EventWorker

/-! ## Https slots -/

namespace Slot

/-- The steps that only go to another place in the code. -/
inductive Goes (s : Slot) : SlotCtl → Prop
  | stopped : s.ctl = .loopTop → Goes s .returning
  | enter : s.ctl = .loopTop → Goes s .connecting
  | stay : s.ctl = .exited → Goes s .exited

/-- Everything one step of a slot can do. -/
inductive Move (cfg : Config) (i : Fin n) (env : Env) (sh : Shared n) (s : Slot) :
    Shared n × List Op × Slot → Prop
  | goes {ctl : SlotCtl} : s.Goes ctl → Move cfg i env sh s (sh, [], s.goto ctl)
  | started (client : SslClient) : s.ctl = .start →
      Move cfg i env sh s
        ({ sh with stats := sh.stats.createWriter i }, [],
          { s with client := client, ctl := .loopTop })
  | notStarted (client : SslClient) : s.ctl = .start →
      Move cfg i env sh s
        ({ sh with stats := sh.stats.createWriter i }, [.storeStop],
          { s with client := client, ctl := .returning })
  | connected (client : SslClient) : s.ctl = .connecting →
      Move cfg i env sh s (sh, [], { s with client := client, ctl := .acquiring .load })
  | retried (client : SslClient) : s.ctl = .connecting → s.retry < maxRetryPerSession →
      Move cfg i env sh s
        (sh, [.add .retried 1], { s with client := client, retry := s.retry + 1, ctl := .loopTop })
  | gaveUp (client : SslClient) : s.ctl = .connecting → ¬ s.retry < maxRetryPerSession →
      Move cfg i env sh s (sh, giveUpOps env.nowNs, { s with client := client, ctl := .returning })
  | acquires {started : ℕ} {pc pc' : QuotaPc} : s.ctl = .acquiring pc →
      quotaStep cfg env.spurious (sh.counters .started) pc = (started, .inl pc') →
      Move cfg i env sh s (sh.set .started started, [], s.goto (.acquiring pc'))
  | refused {started : ℕ} {pc : QuotaPc} : s.ctl = .acquiring pc →
      quotaStep cfg env.spurious (sh.counters .started) pc = (started, .inr false) →
      Move cfg i env sh s (sh.set .started started, [], s.goto .returning)
  | granted {started : ℕ} {pc : QuotaPc} : s.ctl = .acquiring pc →
      quotaStep cfg env.spurious (sh.counters .started) pc = (started, .inr true) →
      Move cfg i env sh s
        (sh.set .started started, [],
          { s with granted := s.granted + 1, ctl := .waiting .readClock })
  | waits {pc pc' : RatePc} (token : ℤ) : s.ctl = .waiting pc →
      Move cfg i env sh s ({ sh with nextTokenNs := token }, [], s.goto (.waiting pc'))
  | waited {pc : RatePc} (token : ℤ) : s.ctl = .waiting pc →
      Move cfg i env sh s ({ sh with nextTokenNs := token }, [], s.goto .performing)
  | performed (client : SslClient) (result : Result) (status : ℤ) (ok : Bool) (retry : ℕ)
      {ops : List Op} : s.ctl = .performing → ops = [] ∨ ops = [.add .retried 1] →
      Move cfg i env sh s
        (sh, resultOps env.nowNs result status ok ++ ops,
          { s with client := client, retry := retry, sends := s.sends + 1, ctl := .loopTop })
  | returned : s.ctl = .returning →
      Move cfg i env sh s
        ({ sh with running := Function.update sh.running i false }, [], s.goto .exited)

/-- Every step of a slot is one of the cases. -/
theorem slotStep_move (cfg : Config) (i : Fin n) (env : Env) (sh : Shared n) (s : Slot) :
    Move cfg i env sh s (slotStep cfg i env sh s) := by
  unfold slotStep
  cases hc : s.ctl with
  | start =>
    dsimp only
    obtain ⟨client, err⟩ := s.client.init env.ssl
    cases err with
    | none => exact .started client hc
    | some err => exact .notStarted client hc
  | loopTop =>
    dsimp only
    split_ifs
    · exact .goes (.stopped hc)
    · exact .goes (.enter hc)
  | connecting =>
    dsimp only
    obtain ⟨client, ok⟩ := ensureConnected cfg env.ssl s.client
    cases ok with
    | true => exact .connected client hc
    | false =>
      dsimp only
      split_ifs with hr
      · exact .retried client hc hr
      · exact .gaveUp client hc hr
  | acquiring pc =>
    dsimp only
    cases hq : quotaStep cfg env.spurious (sh.counters .started) pc with
    | mk started result =>
      cases result with
      | inl pc' => exact .acquires hc hq
      | inr granted =>
        cases granted with
        | false => exact .refused hc hq
        | true => exact .granted hc hq
  | waiting pc =>
    dsimp only
    cases rateStep cfg.rateIntervalNs env.nowNs env.spurious sh.nextTokenNs pc with
    | mk token pc' =>
      cases pc' with
      | some pc' => exact .waits token hc
      | none => exact .waited token hc
  | performing =>
    dsimp only [performGet]
    obtain ⟨client, result, resp, body⟩ := s.client.performHttpGet _ env.get
    dsimp only
    split_ifs with hok hr
    · simpa only [List.append_nil] using
        @Move.performed n cfg i env sh s client result resp.statusCode _ 0 [] hc (.inl rfl)
    · exact .performed _ result resp.statusCode _ _ hc (.inr rfl)
    · simpa only [List.append_nil] using
        @Move.performed n cfg i env sh s client result resp.statusCode _ s.retry [] hc (.inl rfl)
  | returning => exact .returned hc
  | exited => simpa only [goto, ← hc] using Move.goes (.stay hc)

/-- The counters but `started` are left to the operations. -/
theorem Move.counters {cfg : Config} {i : Fin n} {env : Env} {sh : Shared n} {s : Slot}
    {r : Shared n × List Op × Slot} (h : Move cfg i env sh s r) {c : Counter}
    (hc : c ≠ .started) : r.1.counters c = sh.counters c := by
  cases h with
  | acquires | refused | granted => exact (Shared.set_counters _ _ _ _).trans (if_neg hc)
  | _ => rfl

theorem Move.stop {cfg : Config} {i : Fin n} {env : Env} {sh : Shared n} {s : Slot}
    {r : Shared n × List Op × Slot} (h : Move cfg i env sh s r) : r.1.stop = sh.stop := by
  cases h <;> rfl

theorem Move.turn {cfg : Config} {i : Fin n} {env : Env} {sh : Shared n} {s : Slot}
    {r : Shared n × List Op × Slot} (h : Move cfg i env sh s r) :
    sh.stats.Turn (some i) r.1.stats := by
  cases h with
  | started | notStarted => exact .create i
  | _ => exact .same _

theorem Move.running {cfg : Config} {i : Fin n} {env : Env} {sh : Shared n} {s : Slot}
    {r : Shared n × List Op × Slot} (h : Move cfg i env sh s r) :
    r.1.running = sh.running ∨
      (r.1.running = Function.update sh.running i false ∧ r.2.1 = [] ∧ r.2.2.ctl = .exited) := by
  cases h with
  | returned => exact .inr ⟨rfl, rfl, rfl⟩
  | _ => exact .inl rfl

end Slot

/-! ## The main thread -/

/-- What a step of the main thread leaves alone. -/
structure Main.Frame (sh : Shared n) (r : Shared n × List Op × Main) : Prop where
  counters : r.1.counters = sh.counters
  stop : r.1.stop = sh.stop
  running : r.1.running = sh.running
  ops : r.2.1 = [] ∨ r.2.1 = [.storeStop]
  turn : sh.stats.Turn none r.1.stats

theorem mainStep_frame (cfg : Config) (env : Env) (sh : Shared n) (m : Main) :
    Main.Frame sh (mainStep cfg env sh m) := by
  have hstay : ∀ m', Main.Frame sh (sh, [], m') := fun m' => ⟨rfl, rfl, rfl, .inl rfl, .same _⟩
  have hdrain : ∀ m', Main.Frame sh ({ sh with stats := sh.stats.drainStep env.nowNs }, [], m') :=
    fun m' => ⟨rfl, rfl, rfl, .inl rfl, .drain _⟩
  unfold mainStep
  cases m.ctl with
  | loopTop => dsimp only; split_ifs <;> exact hstay _
  | test =>
    dsimp only
    split_ifs
    · exact ⟨rfl, rfl, rfl, .inr rfl, .same _⟩
    · exact hstay _
    · exact hstay _
  | reading todo final => cases todo <;> exact hstay _
  | drainStart after => exact hdrain _
  | draining after =>
    dsimp only
    cases sh.stats.drain with
    | idle => cases after <;> exact hstay _
    | _ => exact hdrain _
  | snapshot final => exact hstay _
  | joining => dsimp only; split_ifs <;> exact hstay _
  | done => exact hstay _

/-! ## Any thread -/

/-- The thread has returned. -/
def Body.Exited : Body → Prop
  | .main _ => False
  | .event w => w.ctl = .exited
  | .slot s => s.ctl = .exited

def Body.main? : Body → Option Main
  | .main m => some m
  | _ => none

def Body.event? : Body → Option EventWorker
  | .event w => some w
  | _ => none

theorem Body.event?_eq_some {body : Body} {w : EventWorker} :
    body.event? = some w ↔ body = .event w := by
  cases body <;> simp [event?]

namespace Engine

/-- Everything one step of a thread can do. -/
inductive Move (cfg : Config) (env : Env) (sh : Shared n) :
    Option (Fin n) → Thread → Shared n × Thread → Prop
  | op {i : Option (Fin n)} {op : Op} {rest : List Op} (body : Body) {r : Shared n × List Op} :
      op.Exec sh rest i r → Move cfg env sh i ⟨op :: rest, body⟩ (r.1, ⟨r.2, body⟩)
  | main {m : Main} {r : Shared n × List Op × Main} : r = mainStep cfg env sh m →
      Move cfg env sh none ⟨[], .main m⟩ (r.1, ⟨r.2.1, .main r.2.2⟩)
  | event {i : Fin n} {w : EventWorker} {r : Shared n × List Op × EventWorker} :
      w.Move cfg i env sh r →
      Move cfg env sh (some i) ⟨[], .event w⟩ (r.1, ⟨r.2.1, .event r.2.2⟩)
  | slot {i : Fin n} {s : Slot} {r : Shared n × List Op × Slot} : s.Move cfg i env sh r →
      Move cfg env sh (some i) ⟨[], .slot s⟩ (r.1, ⟨r.2.1, .slot r.2.2⟩)
  | stay (i : Option (Fin n)) (body : Body) : Move cfg env sh i ⟨[], body⟩ (sh, ⟨[], body⟩)

theorem step_move (cfg : Config) (i : Option (Fin n)) (env : Env) (sh : Shared n) (t : Thread) :
    Move cfg env sh i t (step cfg i env sh t) := by
  obtain ⟨ops, body⟩ := t
  cases ops with
  | cons op rest => exact .op body (execOp_exec i op rest sh)
  | nil =>
    cases i with
    | none =>
      cases body with
      | main m => exact .main rfl
      | _ => exact .stay _ _
    | some i =>
      cases body with
      | main m => exact .stay _ _
      | event w => exact .event (EventWorker.eventStep_move cfg i env sh w)
      | slot s => exact .slot (Slot.slotStep_move cfg i env sh s)

section

variable {cfg : Config} {env : Env} {sh : Shared n} {i : Option (Fin n)} {t : Thread}
  {r : Shared n × Thread}

theorem Move.stop_mono (hm : Move cfg env sh i t r) (h : sh.stop = true) : r.1.stop = true := by
  cases hm with
  | op body hx => cases hx <;> first | exact h | rfl
  | main hr =>
    rw [hr, (mainStep_frame cfg env sh _).stop]
    exact h
  | event hm => exact hm.stop.trans h
  | slot hm => exact hm.stop.trans h
  | stay => exact h

theorem Move.turn (hm : Move cfg env sh i t r) : sh.stats.Turn i r.1.stats := by
  cases hm with
  | op body hx => exact hx.turn
  | @main m r hr =>
    rw [hr]
    exact (mainStep_frame cfg env sh m).turn
  | event hm => exact hm.turn
  | slot hm => exact hm.turn
  | stay => exact .same _

theorem Move.counters_le (hm : Move cfg env sh i t r) {c : Counter} (hc : c ≠ .started) :
    sh.counters c ≤ r.1.counters c := by
  cases hm with
  | op body hx => exact hx.counters_le c
  | main hr => rw [hr, (mainStep_frame cfg env sh _).counters]
  | event hm => exact (hm.counters hc).ge
  | slot hm => exact (hm.counters hc).ge
  | stay => exact le_rfl

theorem Move.started_le (hm : Move cfg env sh i t r) :
    sh.counters .started ≤ r.1.counters .started := by
  have hquota : ∀ {started : ℕ} {pc : QuotaPc} {result : QuotaPc ⊕ Bool},
      quotaStep cfg env.spurious (sh.counters .started) pc = (started, result) →
      sh.counters .started ≤ (sh.set .started started).counters .started := by
    intro started pc result hq
    have hle := quotaStep_le cfg env.spurious (sh.counters .started) pc
    rwa [hq] at hle
  cases hm with
  | op body hx => exact hx.counters_le _
  | main hr => rw [hr, (mainStep_frame cfg env sh _).counters]
  | event hm =>
    cases hm with
    | acquires _ hq | refused _ hq | granted _ hq => exact hquota hq
    | _ => exact le_rfl
  | slot hm =>
    cases hm with
    | acquires _ hq | refused _ hq | granted _ hq => exact hquota hq
    | _ => exact le_rfl
  | stay => exact le_rfl

/-- A thread is of one kind for good. -/
theorem Move.not_slot (hm : Move cfg env sh i t r) (h : ∀ s, t.body ≠ .slot s) (s : Slot) :
    r.2.body ≠ .slot s := by
  cases hm with
  | op => exact h s
  | slot => exact absurd rfl (h _)
  | stay => exact h s
  | _ => exact fun hs => nomatch hs

end

/-- A thread that has returned does nothing. -/
theorem step_exited {t : Thread} (hops : t.ops = []) (hbody : t.body.Exited) (cfg : Config)
    (i : Option (Fin n)) (env : Env) (sh : Shared n) : step cfg i env sh t = (sh, t) := by
  obtain ⟨ops, body⟩ := t
  subst hops
  cases body with
  | main m => exact absurd hbody id
  | event w =>
    cases i with
    | none => rfl
    | some i =>
      have hw : eventStep cfg i env sh w = (sh, [], w) := by
        unfold eventStep
        rw [show w.ctl = .exited from hbody]
      simp only [step, bodyStep, hw]
  | slot s =>
    cases i with
    | none => rfl
    | some i =>
      have hs : slotStep cfg i env sh s = (sh, [], s) := by
        unfold slotStep
        rw [show s.ctl = .exited from hbody]
      simp only [step, bodyStep, hs]

/-- Only a thread itself returns, and it has nothing left to do then. -/
theorem Move.running {cfg : Config} {env : Env} {sh : Shared n} {i : Option (Fin n)} {t : Thread}
    {r : Shared n × Thread} (hm : Move cfg env sh i t r) :
    r.1.running = sh.running ∨ ∃ k, i = some k ∧
      r.1.running = Function.update sh.running k false ∧ r.2.ops = [] ∧ r.2.body.Exited := by
  cases hm with
  | op body hx => exact .inl hx.running
  | main hr =>
    rw [hr]
    exact .inl (mainStep_frame cfg env sh _).running
  | event hm => exact hm.running.imp_right fun h => ⟨_, rfl, h⟩
  | slot hm => exact hm.running.imp_right fun h => ⟨_, rfl, h⟩
  | stay => exact .inl rfl

/-- The configurations of the runs of `cfg` that begin at `beginNs`. -/
abbrev Runs (cfg : Config) (beginNs : ℕ) : Conf cfg.threadCount → Prop :=
  Threads.Reachable (step cfg) (init cfg beginNs)

/-- A worker that is not running any more has returned. -/
theorem Runs.exited {cfg : Config} {beginNs : ℕ} {c : Conf cfg.threadCount}
    (h : Runs cfg beginNs c) (k : Fin cfg.threadCount) (hk : c.shared.running k = false) :
    (c.locals (some k)).ops = [] ∧ (c.locals (some k)).body.Exited := by
  refine h.thread_invariant
    (R := fun sh t => sh.running k = false → t.ops = [] ∧ t.body.Exited) (some k) ?_ ?_ ?_ hk
  · intro hk
    have hboth : cfg.protocol ≠ .https ∧ cfg.perWorker k = 0 := by
      simpa [init] using hk
    refine ⟨rfl, ?_⟩
    show (initialBody cfg k).Exited
    rw [initialBody, if_neg hboth.1, if_pos hboth.2]
    rfl
  · intro c e _ _ ht hk
    by_cases hold : c.shared.running k = false
    · have hdone := ht hold
      rw [step_exited hdone.1 hdone.2]
      exact hdone
    · rcases (step_move cfg (some k) e c.shared (c.locals (some k))).running with
        hsame | ⟨k', _, -, hdone⟩
      · rw [hsame] at hk
        exact absurd hk hold
      · exact hdone
  · intro c i e _ _ hi ht hk
    apply ht
    rcases (step_move cfg i e c.shared (c.locals i)).running with hsame | ⟨k', rfl, hup, -⟩
    · rwa [hsame] at hk
    · have hne : k ≠ k' := fun heq => hi (congrArg some heq.symm)
      rwa [hup, Function.update_of_ne hne] at hk

/-- Thread `none` is the main thread. -/
theorem Runs.main_body {cfg : Config} {beginNs : ℕ} {c : Conf cfg.threadCount}
    (h : Runs cfg beginNs c) : ∃ m, (c.locals none).body = .main m := by
  refine h.local_invariant (J := fun t => ∃ m, t.body = .main m) none ⟨_, rfl⟩ ?_
  · intro c e _ _ ht
    have hm := step_move cfg none e c.shared (c.locals none)
    generalize step cfg none e c.shared (c.locals none) = r at hm
    generalize c.locals none = t at hm ht
    cases hm with
    | op => exact ht
    | main => exact ⟨_, rfl⟩
    | stay => exact ht

/-- Without https there are no slots. -/
theorem Runs.not_slot {cfg : Config} {beginNs : ℕ} {c : Conf cfg.threadCount}
    (hp : cfg.protocol ≠ .https) (h : Runs cfg beginNs c) (i : Option (Fin cfg.threadCount)) :
    ∀ s, (c.locals i).body ≠ .slot s := by
  refine h.local_invariant (J := fun t => ∀ s, t.body ≠ .slot s) i ?_ ?_
  · intro s
    cases i with
    | none => exact fun hs => nomatch hs
    | some i =>
      show initialBody cfg i ≠ _
      unfold initialBody
      rw [if_neg hp]
      split_ifs <;> exact fun hs => nomatch hs
  · intro c e _ _ ht
    exact (step_move cfg i e c.shared (c.locals i)).not_slot ht

end Engine

end TitanBench
