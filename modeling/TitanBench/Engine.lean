import TitanBench.Quota
import TitanBench.Ssl
import TitanBench.StatsRing

/-!
# The benchmark engine

One run of the engine: the main thread and its worker threads over `Shared`. With http, tcp and
udp there is a thread for each event-driven worker; with https there is one for each slot, since a
worker only starts its slots and joins them.

A thread owns its `NetWorker` or `SslClient`, its sessions and its place in the code. A step is
one access to the shared state with the thread's own work up to the next. A block of updates
that follow each other without a branch is handed over as a list of `Op`s, which the thread
executes one at a time, in order, before it goes on.

* `eventStep` — `WorkerLoopEventDriven`.
* `slotStep` — `slot_run` of `WorkerLoopHttps`.
* `mainStep` — the loop of `Run`, the join and the final report.
* `Engine.step`, `Engine.init` — the threads together.

`Env` is what the clock, the network and the scheduler answer. `granted` and `sends` count, for
each thread, the quota it was granted and the requests it issued; no step reads them.
Counters are natural numbers, exact below `2 ^ 64`.
-/

namespace TitanBench

open Threads

def connectTimeoutMs : ℤ := 3000
def maxRetryPerSession : ℕ := 3
def retryBackoffMsBase : ℕ := 50

/-- The backoff before try number `retries`, in nanoseconds. -/
def backoffNs (retries : ℕ) : ℕ := retryBackoffMsBase * 2 ^ (retries - 1) * 1000000

/-- Subtraction of `std::uint64_t` values. -/
def subU64 (a b : ℕ) : ℕ := (a + (2 ^ 64 - b % 2 ^ 64)) % 2 ^ 64

def buildPayload (cfg : Config) : Bytes :=
  match cfg.protocol with
  | .http => buildGetRequest { host := cfg.host, path := cfg.path, keepAlive := true }
  | .tcp => ascii "titanbench tcp payload"
  | .udp => ascii "titanbench udp payload"
  | .https => []

def toErrorClass (ec : NetErrc) : ErrorClass :=
  if ec = .timeout then .timeout
  else if ec = .resolveFailed then .connectFailed
  else .networkIo

/-- The target of the run. -/
def Config.endpoint (cfg : Config) : Endpoint :=
  { host := cfg.host, port := (cfg.port % 65536).toNat }

/-- The worker threads of a run that share the counters. -/
def Config.threadCount (cfg : Config) : ℕ :=
  if cfg.protocol = .https then cfg.concurrency.toNat else cfg.workers

/-! ## The shared state -/

inductive Counter
  | started
  | completed
  | succeeded
  | failed
  | retried
  | bytesSent
  | bytesReceived
  deriving DecidableEq

/-- The counters in the order `BuildProgressReport` reads them. -/
def Counter.all : List Counter :=
  [.started, .completed, .succeeded, .failed, .retried, .bytesSent, .bytesReceived]

structure Shared (n : ℕ) where
  counters : Counter → ℕ := fun _ => 0
  nextTokenNs : ℤ := 0
  stop : Bool := false
  stats : Collector (Fin n)
  running : Fin n → Bool

variable {n : ℕ}

def Shared.set (sh : Shared n) (c : Counter) (value : ℕ) : Shared n :=
  { sh with counters := Function.update sh.counters c value }

/-- One update of the shared state on the way of a thread. `recording` stands for the rest of a
`Record` call. -/
inductive Op
  | add (c : Counter) (k : ℕ)
  | storeStop
  | record (sample : RequestSample)
  | recording
  deriving DecidableEq

/-- The next step of an operation of thread `i`; it is gone when it is complete. -/
def execOp (i : Option (Fin n)) (op : Op) (rest : List Op) (sh : Shared n) : Shared n × List Op :=
  match op, i with
  | .add c k, _ => (sh.set c (sh.counters c + k), rest)
  | .storeStop, _ => ⟨{ sh with stop := true }, rest⟩
  | .record sample, some i =>
    ⟨{ sh with stats := sh.stats.recordStep i sample }, .recording :: rest⟩
  | .recording, some i =>
    if (sh.stats.writers i).pc = .idle then (sh, rest)
    else ⟨{ sh with stats := sh.stats.recordStep i {} }, .recording :: rest⟩
  | _, none => (sh, rest)

/-- What a thread may be told on one step. -/
structure Env where
  nowNs : ℕ := 0
  laterNs : ℕ := 0
  spurious : Bool := false
  order : List ℕ := []
  start : StartSys := {}
  submit : SubmitSys := {}
  close : ℕ → SubmitSys := fun _ => {}
  poll : PollSys := {}
  ssl : SslSys := {}
  get : GetSys := {}
  progress : Bool := false

/-! ## Event-driven workers -/

structure Session where
  connId : ℕ := 0
  parser : ResponseParser := {}
  inFlight : Bool := false
  retries : ℕ := 0
  requestBeginNs : ℕ := 0
  retryAtNs : ℕ := 0
  deriving DecidableEq

/-- Where a worker is in `WorkerLoopEventDriven`. `todo` are the sessions the send loop has still
to visit, `events` the events still to be handled, `old` a session taken out of the map. -/
inductive EventCtl
  | start
  | connecting (left : ℕ)
  | loopTop
  | visiting (now : ℕ) (todo : List ℕ)
  | acquiring (id : ℕ) (pc : QuotaPc) (now : ℕ) (todo : List ℕ)
  | waiting (id : ℕ) (pc : RatePc) (now : ℕ) (todo : List ℕ)
  | sending (id : ℕ) (now : ℕ) (todo : List ℕ)
  | polling
  | handling (events : List RecvEvent)
  | retrying (old : Session) (events : List RecvEvent)
  | reconnecting (old : Session) (events : List RecvEvent)
  | closing
  | returning
  | exited
  deriving DecidableEq

structure EventWorker where
  ctl : EventCtl := .start
  net : NetWorker := {}
  sessions : Table ℕ Session := ∅
  granted : ℕ := 0
  sends : ℕ := 0

namespace EventWorker

def goto (w : EventWorker) (ctl : EventCtl) : EventWorker := { w with ctl := ctl }

/-- The submission of `create_connection`: the network worker, the error and the id. -/
def submitConnection (cfg : Config) (sys : SubmitSys) (net : NetWorker) :
    NetWorker × NetErrc × ℕ :=
  if cfg.protocol = .udp then net.createUdpConnection cfg.endpoint sys
  else net.createTcpConnection cfg.endpoint connectTimeoutMs sys

/-- `create_connection` for `session`. -/
def createConnection (cfg : Config) (session : Session) (sys : SubmitSys) (w : EventWorker) :
    EventWorker × Bool :=
  match submitConnection cfg sys w.net with
  | (net, .ok, id) =>
    ⟨{ w with
        net := net
        sessions := w.sessions.insert id
          { session with connId := id, inFlight := false, parser := session.parser.reset } }, true⟩
  | (net, _, _) => ⟨{ w with net := net }, false⟩

/-- The updates after a `Send` that failed. -/
def sendFailedOps (beginNs : ℕ) (ec : NetErrc) : List Op :=
  [.add .failed 1, .add .completed 1,
    .record { timestampNs := beginNs, success := false, error := toErrorClass ec }]

/-- The updates after a tcp or udp `Send`, which completes the request. -/
def sendDoneOps (beginNs endNs size : ℕ) : List Op :=
  [.add .succeeded 1, .add .completed 1,
    .record
      { timestampNs := endNs
        latencyNs := subU64 endNs beginNs
        bytesSent := size % 2 ^ 32
        success := true }]

/-- The body of the send loop from `Send` on, for session `s` under `id`. -/
def sendRequest (cfg : Config) (env : Env) (id : ℕ) (s : Session) (w : EventWorker) :
    List Op × EventWorker :=
  let payload := buildPayload cfg
  match w.net.send s.connId payload env.submit with
  | (net, .ok) =>
    let w := { w with net := net, sends := w.sends + 1 }
    if cfg.protocol = .tcp ∨ cfg.protocol = .udp then
      (.add .bytesSent payload.length :: sendDoneOps env.nowNs env.laterNs payload.length, w)
    else
      ([.add .bytesSent payload.length],
        { w with
          sessions := w.sessions.insert id
            { s with inFlight := true, requestBeginNs := env.nowNs } })
  | (net, ec) => (sendFailedOps env.nowNs ec, { w with net := net, sends := w.sends + 1 })

/-- The latency of a request of session `s` that ends now. -/
def latencyNs (nowNs : ℕ) (s : Session) : ℕ :=
  if s.requestBeginNs = 0 then 0 else subU64 nowNs s.requestBeginNs

/-- The updates for an error event of session `old`. -/
def errorOps (cfg : Config) (env : Env) (ec : NetErrc) (old : Session) : List Op :=
  if old.inFlight then
    [.add .failed 1, .add .completed 1,
      .record
        { timestampNs := env.nowNs
          latencyNs := latencyNs env.nowNs old
          bytesSent := (buildPayload cfg).length % 2 ^ 32
          success := false
          error := toErrorClass ec }]
  else []

/-- The updates for bytes the parser of session `s` rejects. -/
def parseErrorOps (cfg : Config) (env : Env) (data : Bytes) (s : Session) : List Op :=
  [.add .failed 1, .add .completed 1,
    .record
      { timestampNs := env.nowNs
        latencyNs := latencyNs env.nowNs s
        bytesSent := (buildPayload cfg).length % 2 ^ 32
        bytesReceived := data.length % 2 ^ 32
        success := false
        error := .parseError }]

/-- The updates for bytes that complete a response with status `status`. -/
def responseOps (cfg : Config) (env : Env) (data : Bytes) (s : Session) (status : ℤ) : List Op :=
  let ok : Bool := 0 < status && status < 400
  [.add .completed 1, .add (if ok then .succeeded else .failed) 1,
    .record
      { timestampNs := env.nowNs
        latencyNs := latencyNs env.nowNs s
        bytesSent := (buildPayload cfg).length % 2 ^ 32
        bytesReceived := data.length % 2 ^ 32
        httpStatus := status
        success := ok
        error := if ok then .none else if status ≥ 500 then .http5xx else .http4xx }]

/-- A data event of session `old`: the updates, and the session that goes back into the map. -/
def dataEvent (cfg : Config) (env : Env) (data : Bytes) (old : Session) : List Op × Session :=
  if cfg.protocol = .http then
    match old.parser.feed data with
    | (parser, false) =>
      let updated := { old with parser := parser, inFlight := false }
      (parseErrorOps cfg env data updated, updated)
    | (parser, true) =>
      if parser.done then
        let updated := { old with parser := parser.reset, inFlight := false, retries := 0 }
        (responseOps cfg env data updated parser.response.statusCode, updated)
      else ([], { old with parser := parser })
  else ([], old)

/-- One round of the event loop. -/
def handleEvent (cfg : Config) (env : Env) (ev : RecvEvent) (events : List RecvEvent)
    (w : EventWorker) : List Op × EventWorker :=
  match w.sessions.lookup ev.connId with
  | none => ([], w.goto (.handling events))
  | some old =>
    let w := { w with sessions := w.sessions.erase ev.connId }
    if ev.isError then (errorOps cfg env ev.error old, w.goto (.retrying old events))
    else
      let (ops, updated) := dataEvent cfg env ev.data old
      (.add .bytesReceived ev.data.length :: ops,
        { w with
          sessions := w.sessions.insert updated.connId updated
          ctl := .handling events })

/-- The end of the worker: every session is closed and the network worker stopped. The map keeps
its sessions until the thread is gone. -/
def closeAll (env : Env) (w : EventWorker) : EventWorker :=
  let net := (w.sessions.visit env.order).foldl
    (fun net id => (net.closeConnection id (env.close id)).1) w.net
  { w with net := net.stop, ctl := .returning }

end EventWorker

open EventWorker in
def eventStep (cfg : Config) (i : Fin n) (env : Env) (sh : Shared n) (w : EventWorker) :
    Shared n × List Op × EventWorker :=
  match w.ctl with
  | .start =>
    match w.net.start env.start with
    | (net, .ok) =>
      ({ sh with stats := sh.stats.createWriter i }, [],
        { w with net := net, ctl := .connecting (cfg.perWorker i) })
    | (net, _) => (sh, [.storeStop], { w with net := net, ctl := .returning })
  | .connecting 0 => (sh, [], w.goto .loopTop)
  | .connecting (left + 1) =>
    match w.createConnection cfg { retryAtNs := env.nowNs } env.submit with
    | (w, true) => (sh, [], w.goto (.connecting left))
    | (w, false) => (sh, [.storeStop], w.goto .loopTop)
  | .loopTop =>
    if sh.stop then (sh, [], w.goto .closing)
    else (sh, [], w.goto (.visiting env.nowNs (w.sessions.visit env.order)))
  | .visiting _ [] => (sh, [], w.goto .polling)
  | .visiting now (id :: todo) =>
    match w.sessions.lookup id with
    | none => (sh, [], w.goto (.visiting now todo))
    | some s =>
      if s.connId = 0 ∨ s.inFlight = true ∨ now < s.retryAtNs then
        (sh, [], w.goto (.visiting now todo))
      else (sh, [], w.goto (.acquiring id .load now todo))
  | .acquiring id pc now todo =>
    match quotaStep cfg env.spurious (sh.counters .started) pc with
    | (started, .inl pc) => (sh.set .started started, [], w.goto (.acquiring id pc now todo))
    | (started, .inr false) => (sh.set .started started, [], w.goto (.visiting now todo))
    | (started, .inr true) =>
      (sh.set .started started, [],
        { w with granted := w.granted + 1, ctl := .waiting id .readClock now todo })
  | .waiting id pc now todo =>
    match rateStep cfg.rateIntervalNs env.nowNs env.spurious sh.nextTokenNs pc with
    | (token, some pc) =>
      ({ sh with nextTokenNs := token }, [], w.goto (.waiting id pc now todo))
    | (token, none) => ({ sh with nextTokenNs := token }, [], w.goto (.sending id now todo))
  | .sending id now todo =>
    match w.sessions.lookup id with
    | none => (sh, [], w.goto (.visiting now todo))
    | some s =>
      let (ops, w) := w.sendRequest cfg env id s
      (sh, ops, w.goto (.visiting now todo))
  | .polling =>
    match NetWorker.pollOnce env.poll { w.net with recvEvents := [] } with
    | (net, .ok) => (sh, [], { w with net := net, ctl := .handling net.recvEvents })
    | (net, _) => (sh, [.storeStop], { w with net := net, ctl := .closing })
  | .handling [] => (sh, [], w.goto .loopTop)
  | .handling (ev :: events) =>
    let (ops, w) := w.handleEvent cfg env ev events
    (sh, ops, w)
  | .retrying old events =>
    if old.retries < maxRetryPerSession ∧ sh.stop = false then
      (sh, [.add .retried 1], w.goto (.reconnecting { old with retries := old.retries + 1 } events))
    else (sh, [], w.goto (.handling events))
  | .reconnecting old events =>
    match w.createConnection cfg { old with retryAtNs := env.nowNs + backoffNs old.retries }
        env.submit with
    | (w, true) => (sh, [], w.goto (.handling events))
    | (w, false) => (sh, [.storeStop], w.goto .loopTop)
  | .closing => (sh, [], w.closeAll env)
  | .returning =>
    ({ sh with running := Function.update sh.running i false }, [], w.goto .exited)
  | .exited => (sh, [], w)

/-! ## Https slots -/

/-- Where a slot is in `slot_run`. -/
inductive SlotCtl
  | start
  | loopTop
  | connecting
  | acquiring (pc : QuotaPc)
  | waiting (pc : RatePc)
  | performing
  | returning
  | exited
  deriving DecidableEq

structure Slot where
  ctl : SlotCtl := .start
  client : SslClient := {}
  retry : ℕ := 0
  granted : ℕ := 0
  sends : ℕ := 0

namespace Slot

def goto (s : Slot) (ctl : SlotCtl) : Slot := { s with ctl := ctl }

def sslOptions (cfg : Config) : SslOptions :=
  { endpoint := cfg.endpoint
    connectTimeoutMs := connectTimeoutMs
    handshakeTimeoutMs := connectTimeoutMs
    verifyPeer := false
    keepAlive := true }

/-- `client.connected() || client.Connect(options)`. -/
def ensureConnected (cfg : Config) (sys : SslSys) (c : SslClient) : SslClient × Bool :=
  if c.connected then (c, true)
  else ((c.connect (sslOptions cfg) sys).1, (c.connect (sslOptions cfg) sys).2 = none)

/-- The updates of a slot that gives up connecting. -/
def giveUpOps (nowNs : ℕ) : List Op :=
  [.add .failed 1, .add .completed 1,
    .record { timestampNs := nowNs, success := false, error := .connectFailed }, .storeStop]

/-- The updates after `PerformHttpGet`. -/
def resultOps (nowNs : ℕ) (result : Result) (status : ℤ) (ok : Bool) : List Op :=
  [.add .bytesSent result.bytesSent, .add .bytesReceived result.bytesReceived, .add .completed 1,
    .add (if ok then .succeeded else .failed) 1,
    .record
      { timestampNs := nowNs
        latencyNs := (max 0 result.latencyNs).toNat
        bytesSent := result.bytesSent % 2 ^ 32
        bytesReceived := result.bytesReceived % 2 ^ 32
        httpStatus := status
        success := ok
        error :=
          if ok then .none
          else if result.status = .parseError then .parseError
          else if status ≥ 500 then .http5xx
          else .other }]

/-- The body of the slot's loop from `PerformHttpGet` on. -/
def performGet (cfg : Config) (env : Env) (s : Slot) : List Op × Slot :=
  let req : Request := { host := cfg.host, path := cfg.path, keepAlive := true }
  let (client, result, resp, _) := s.client.performHttpGet req env.get
  let ok : Bool := result.status = .ok && resp.statusCode < 400
  let ops := resultOps env.nowNs result resp.statusCode ok
  let s := { s with client := client, sends := s.sends + 1, ctl := .loopTop }
  if ok then (ops, { s with retry := 0 })
  else if s.retry < maxRetryPerSession then
    (ops ++ [.add .retried 1], { s with retry := s.retry + 1, client := client.close })
  else (ops, s)

end Slot

open Slot in
def slotStep (cfg : Config) (i : Fin n) (env : Env) (sh : Shared n) (s : Slot) :
    Shared n × List Op × Slot :=
  match s.ctl with
  | .start =>
    match s.client.init env.ssl with
    | (client, none) =>
      ({ sh with stats := sh.stats.createWriter i }, [],
        { s with client := client, ctl := .loopTop })
    | (client, some _) =>
      ({ sh with stats := sh.stats.createWriter i }, [.storeStop],
        { s with client := client, ctl := .returning })
  | .loopTop => if sh.stop then (sh, [], s.goto .returning) else (sh, [], s.goto .connecting)
  | .connecting =>
    match ensureConnected cfg env.ssl s.client with
    | (client, true) => (sh, [], { s with client := client, ctl := .acquiring .load })
    | (client, false) =>
      if s.retry < maxRetryPerSession then
        (sh, [.add .retried 1],
          { s with client := client, retry := s.retry + 1, ctl := .loopTop })
      else (sh, giveUpOps env.nowNs, { s with client := client, ctl := .returning })
  | .acquiring pc =>
    match quotaStep cfg env.spurious (sh.counters .started) pc with
    | (started, .inl pc) => (sh.set .started started, [], s.goto (.acquiring pc))
    | (started, .inr false) => (sh.set .started started, [], s.goto .returning)
    | (started, .inr true) =>
      (sh.set .started started, [], { s with granted := s.granted + 1, ctl := .waiting .readClock })
  | .waiting pc =>
    match rateStep cfg.rateIntervalNs env.nowNs env.spurious sh.nextTokenNs pc with
    | (token, some pc) => ({ sh with nextTokenNs := token }, [], s.goto (.waiting pc))
    | (token, none) => ({ sh with nextTokenNs := token }, [], s.goto .performing)
  | .performing =>
    let (ops, s) := s.performGet cfg env
    (sh, ops, s)
  | .returning =>
    ({ sh with running := Function.update sh.running i false }, [], s.goto .exited)
  | .exited => (sh, [], s)

/-! ## The main thread -/

structure EngineReport where
  counters : Counter → ℕ := fun _ => 0
  elapsedMs : ℕ := 0
  stats : StatsSnapshot := {}

/-- What follows a drain: the loop, or the rest of a progress or the final report. -/
inductive AfterDrain
  | loop
  | report (final : Bool)
  deriving DecidableEq

/-- Where the main thread is in `Run`; `todo` are the counters a report has still to read. -/
inductive MainCtl
  | loopTop
  | test
  | reading (todo : List Counter) (final : Bool)
  | drainStart (after : AfterDrain)
  | draining (after : AfterDrain)
  | snapshot (final : Bool)
  | joining
  | done
  deriving DecidableEq

structure Main where
  ctl : MainCtl := .loopTop
  beginNs : ℕ := 0
  report : EngineReport := {}

namespace Main

def goto (m : Main) (ctl : MainCtl) : Main := { m with ctl := ctl }

/-- `end_time` of `Run`. -/
def endNs (cfg : Config) (m : Main) : ℕ :=
  m.beginNs + (max 1 cfg.durationSeconds).toNat * nsPerSecond

/-- Whether the test of the loop ends the run. -/
def finished (cfg : Config) (env : Env) (sh : Shared n) (m : Main) : Bool :=
  if cfg.hasDuration then env.nowNs ≥ m.endNs cfg
  else if cfg.hasRequests then sh.counters .completed ≥ cfg.quota
  else false

/-- The error message of a finished run, if it counts as a failure. -/
def runError (report : EngineReport) : Option String :=
  if report.counters .completed = 0 then some "benchmark finished with zero completed requests"
  else none

end Main

open Main in
def mainStep (cfg : Config) (env : Env) (sh : Shared n) (m : Main) : Shared n × List Op × Main :=
  match m.ctl with
  | .loopTop => if sh.stop then (sh, [], m.goto .joining) else (sh, [], m.goto .test)
  | .test =>
    if m.finished cfg env sh then (sh, [.storeStop], m.goto .joining)
    else if env.progress then (sh, [], m.goto (.reading Counter.all false))
    else (sh, [], m.goto (.drainStart .loop))
  | .reading [] final =>
    let elapsedMs := (env.nowNs - m.beginNs) / 1000000
    (sh, [],
      { m with
        report := { m.report with elapsedMs := elapsedMs }
        ctl := .drainStart (.report final) })
  | .reading (c :: todo) final =>
    let counters := Function.update m.report.counters c (sh.counters c)
    (sh, [],
      { m with report := { m.report with counters := counters }, ctl := .reading todo final })
  | .drainStart after =>
    ({ sh with stats := sh.stats.drainStep env.nowNs }, [], m.goto (.draining after))
  | .draining after =>
    match sh.stats.drain with
    | .idle =>
      match after with
      | .loop => (sh, [], m.goto .loopTop)
      | .report final => (sh, [], m.goto (.snapshot final))
    | _ => ({ sh with stats := sh.stats.drainStep env.nowNs }, [], m)
  | .snapshot final =>
    let stats := snapshot sh.stats.qpsMask sh.stats.startNs env.nowNs env.laterNs sh.stats.totals
    (sh, [],
      { m with
        report := { m.report with stats := stats }
        ctl := if final then .done else .loopTop })
  | .joining =>
    if ∀ i, sh.running i = false then (sh, [], m.goto (.reading Counter.all true)) else (sh, [], m)
  | .done => (sh, [], m)

/-! ## The threads together -/

inductive Body
  | main (m : Main)
  | event (w : EventWorker)
  | slot (s : Slot)

structure Thread where
  ops : List Op := []
  body : Body

namespace Engine

/-- The configurations of a run: the main thread is `none`, the workers are `some i`. -/
abbrev Conf (n : ℕ) := Threads.Conf (Option (Fin n)) (Shared n) Thread

/-- The step of the thread's own code, with no operation left to execute. -/
def bodyStep (cfg : Config) (i : Option (Fin n)) (env : Env) (sh : Shared n) (body : Body) :
    Shared n × Thread :=
  match i, body with
  | none, .main m =>
    let (sh, ops, m) := mainStep cfg env sh m
    (sh, ⟨ops, .main m⟩)
  | some i, .event w =>
    let (sh, ops, w) := eventStep cfg i env sh w
    (sh, ⟨ops, .event w⟩)
  | some i, .slot s =>
    let (sh, ops, s) := slotStep cfg i env sh s
    (sh, ⟨ops, .slot s⟩)
  | _, body => (sh, ⟨[], body⟩)

def step (cfg : Config) (i : Option (Fin n)) (env : Env) (sh : Shared n) (t : Thread) :
    Shared n × Thread :=
  match t.ops with
  | op :: rest => ((execOp i op rest sh).1, ⟨(execOp i op rest sh).2, t.body⟩)
  | [] => bodyStep cfg i env sh t.body

/-- The thread of worker `i` when the run begins. A worker without connections is not started. -/
def initialBody (cfg : Config) (i : ℕ) : Body :=
  if cfg.protocol = .https then .slot {}
  else if cfg.perWorker i = 0 then .event { ctl := .exited }
  else .event {}

/-- The run begins, at time `beginNs`. The collector has the default capacities. -/
def init (cfg : Config) (beginNs : ℕ) : Conf cfg.threadCount where
  shared :=
    { nextTokenNs := beginNs
      stats := { ringCapacity := 4096, qpsMask := 63, startNs := beginNs }
      running := fun i => decide (cfg.protocol = .https) || decide (cfg.perWorker i ≠ 0) }
  locals
    | none => { body := .main { beginNs := beginNs } }
    | some i => { body := initialBody cfg i }

end Engine

/-- The default collector is the one the engine starts with. -/
theorem Collector.new_default (beginNs : ℕ) :
    (Collector.new {} beginNs : Option (Collector (Fin n)))
      = some { ringCapacity := 4096, qpsMask := 63, startNs := beginNs } := rfl

end TitanBench
