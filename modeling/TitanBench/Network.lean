import TitanBench.Http
import TitanBench.Lib.Table

/-!
# The network worker

One `NetWorker`: the command queue, the connection table and the epoll loop. What the operating
system answers is an argument of each function: whether an address resolves, which descriptor
`socket` returns, what `connect`, `send` and `recv` report, which events `epoll_wait` returns and
in which order a hash table is walked. A list of answers that runs out means "would block".

* `processCommands`, `checkConnectTimeouts`, `handleReady` — the three parts of a poll.
* `pollOnce` — one I/O round, which appends to `recvEvents`.
* `createTcpConnection`, `createUdpConnection`, `send`, `closeConnection` — the submissions.

The queue holds the commands in submission order, as `DrainCommands` restores it. The id used for
the checks inside a poll is read once, before anything is removed. `interest`, `closed`,
`submitted`, `delivered` and `discarded` are logs of what the worker asked of the system and of
what became of each payload; no function reads them.
-/

namespace TitanBench

inductive NetErrc
  | ok
  | invalidArgument
  | notStarted
  | resolveFailed
  | socketCreateFailed
  | setNonBlockingFailed
  | epollCreateFailed
  | epollCtlFailed
  | eventFdCreateFailed
  | ioFailed
  | timeout
  | connectionNotFound
  | queueFull
  | alreadyStarted
  deriving DecidableEq, Repr

structure Endpoint where
  host : Bytes := []
  port : ℕ := 0
  deriving DecidableEq

structure RecvEvent where
  connId : ℕ := 0
  data : Bytes := []
  isError : Bool := false
  error : NetErrc := .ok
  deriving DecidableEq

/-- The bits of an epoll mask that the worker sets or looks at. -/
structure EpollMask where
  epollIn : Bool := false
  epollOut : Bool := false
  epollErr : Bool := false
  epollHup : Bool := false
  epollRdHup : Bool := false
  deriving DecidableEq

def readMask : EpollMask := { epollIn := true, epollRdHup := true }
def readWriteMask : EpollMask := { epollIn := true, epollOut := true, epollRdHup := true }

inductive ConnType
  | tcp
  | udp
  deriving DecidableEq

inductive ConnState
  | connecting
  | connected
  | closed
  deriving DecidableEq

structure OutboundChunk where
  data : Bytes
  sentOffset : ℕ := 0
  deriving DecidableEq

structure Connection where
  fd : Option ℕ := none
  id : ℕ := 0
  type : ConnType := .tcp
  state : ConnState := .closed
  connectBeginNs : ℤ := 0
  connectTimeoutMs : ℤ := 0
  pendingSend : List OutboundChunk := []
  deriving DecidableEq

inductive Command
  | createTcp (connId : ℕ) (endpoint : Endpoint) (connectTimeoutMs : ℤ)
  | createUdp (connId : ℕ) (endpoint : Endpoint)
  | send (connId : ℕ) (payload : Bytes)
  | close (connId : ℕ)
  deriving DecidableEq

/-- The payload of a queued send. -/
def Command.payloads : Command → List Bytes
  | .send _ payload => [payload]
  | _ => []

structure NetWorker where
  started : Bool := false
  epollFd : Option ℕ := none
  wakeFd : Option ℕ := none
  nextConnId : ℕ := 1
  commands : List Command := []
  connections : Table ℕ Connection := ∅
  fdToConn : Table ℕ ℕ := ∅
  bytesSent : ℕ := 0
  bytesReceived : ℕ := 0
  sendOps : ℕ := 0
  recvOps : ℕ := 0
  recvEvents : List RecvEvent := []
  interest : Table ℕ EpollMask := ∅
  closed : List ℕ := []
  submitted : List Bytes := []
  delivered : List Bytes := []
  discarded : List Bytes := []

/-! ## Answers of the system -/

inductive ConnectResult
  | connected
  | inProgress
  | failed
  deriving DecidableEq

/-- What the calls of `HandleCreateTcp` and `HandleCreateUdp` answer; the times are nanoseconds. -/
structure CreateSys where
  beginNs : ℤ := 0
  laterNs : ℤ := 0
  resolved : Bool := true
  socketFd : Option ℕ := none
  nonBlocking : Bool := true
  epollAdd : Bool := true
  connect : ConnectResult := .connected

inductive SendResult
  | accepted (n : ℕ)
  | wouldBlock
  | failed
  deriving DecidableEq

inductive RecvResult
  | data (bytes : Bytes)
  | wouldBlock
  | failed
  deriving DecidableEq

/-- `SO_ERROR`, or the failure to read it. -/
inductive SocketError
  | none
  | reported
  | unavailable
  deriving DecidableEq

/-- One entry of the batch `epoll_wait` returns, with the answers to the calls made for it. -/
structure ReadyEvent where
  fd : ℕ
  mask : EpollMask := {}
  socketError : SocketError := .none
  sends : List SendResult := []
  recvs : List RecvResult := []
  create : ℕ → CreateSys := fun _ => {}

inductive WaitResult
  | interrupted
  | failed
  | ready (events : List ReadyEvent)

structure PollSys where
  create : ℕ → CreateSys := fun _ => {}
  beforeNs : ℤ := 0
  beforeOrder : List ℕ := []
  wait : WaitResult := .ready []
  afterNs : ℤ := 0
  afterOrder : List ℕ := []

structure StartSys where
  epollFd : Option ℕ := some 3
  wakeFd : Option ℕ := some 4
  epollAdd : Bool := true

/-- Whether a command node could be had, and whether the wake descriptor took the write. -/
structure SubmitSys where
  node : Bool := true
  wake : Bool := true

namespace NetWorker

/-! ## Connections -/

def pushEvent (event : RecvEvent) (w : NetWorker) : NetWorker :=
  { w with recvEvents := w.recvEvents ++ [event] }

/-- `close`. -/
def closeFd (fd : ℕ) (w : NetWorker) : NetWorker := { w with closed := w.closed ++ [fd] }

/-- `ModFdInEpoll`, whose result the worker never looks at. -/
def modFd (fd : Option ℕ) (mask : EpollMask) (w : NetWorker) : NetWorker :=
  match fd with
  | none => w
  | some fd => { w with interest := w.interest.insert fd mask }

/-- `AddFdToEpoll` succeeded and the descriptor is entered for connection `id`. -/
def registerFd (id fd : ℕ) (mask : EpollMask) (w : NetWorker) : NetWorker :=
  { w with interest := w.interest.insert fd mask, fdToConn := w.fdToConn.insert fd id }

def setConnection (id : ℕ) (conn : Connection) (w : NetWorker) : NetWorker :=
  { w with connections := w.connections.insert id conn }

/-- The part of `RemoveConnection` for an open descriptor. -/
def releaseFd (fd : Option ℕ) (w : NetWorker) : NetWorker :=
  match fd with
  | none => w
  | some fd =>
    { w.closeFd fd with interest := w.interest.erase fd, fdToConn := w.fdToConn.erase fd }

def removeConnection (id : ℕ) (err : NetErrc) (w : NetWorker) : NetWorker :=
  match w.connections.lookup id with
  | none => w
  | some conn =>
    let w := w.releaseFd conn.fd
    let w :=
      if err ≠ .ok then w.pushEvent { connId := conn.id, isError := true, error := err } else w
    { w with
      connections := w.connections.erase id
      discarded := w.discarded ++ conn.pendingSend.map (·.data) }

/-! ## Commands -/

/-- `BuildSockAddr` on the answer of `getaddrinfo`. -/
def buildSockAddr (endpoint : Endpoint) (resolved : Bool) : Bool :=
  endpoint.host ≠ [] && endpoint.port ≠ 0 && resolved

/-- The end of `HandleCreateTcp`, from the point where `conn` has its descriptor. -/
def connectTcp (id fd : ℕ) (conn : Connection) (sys : CreateSys) (w : NetWorker) : NetWorker :=
  let w := w.setConnection id conn
  if sys.epollAdd = false then
    -- The descriptor is closed here and again with the connection.
    (w.closeFd fd).removeConnection id .epollCtlFailed
  else
    let w := w.registerFd id fd readWriteMask
    match sys.connect with
    | .connected => (w.setConnection id { conn with state := .connected }).modFd fd readMask
    | .inProgress => w
    | .failed => w.removeConnection id .ioFailed

/-- `initial_conn` of `HandleCreateTcp`. -/
def initialTcp (id : ℕ) (connectTimeoutMs beginNs : ℤ) : Connection :=
  { id := id
    type := .tcp
    state := .connecting
    connectTimeoutMs := connectTimeoutMs
    connectBeginNs := beginNs }

def handleCreateTcp (id : ℕ) (endpoint : Endpoint) (connectTimeoutMs : ℤ) (sys : CreateSys)
    (w : NetWorker) : NetWorker :=
  let conn := initialTcp id connectTimeoutMs sys.beginNs
  if id ∈ w.connections then w.removeConnection id .ioFailed
  else
    let w := w.setConnection id conn
    if buildSockAddr endpoint sys.resolved = false then w.removeConnection id .resolveFailed
    else
      match sys.socketFd with
      | none => w.removeConnection id .socketCreateFailed
      | some fd =>
        if sys.nonBlocking = false then
          (w.closeFd fd).removeConnection id .setNonBlockingFailed
        else
          w.connectTcp id fd
            { conn with fd := some fd, state := .connecting, connectBeginNs := sys.laterNs } sys

/-- The end of `HandleCreateUdp`, from the point where `conn` has its descriptor. -/
def connectUdp (id fd : ℕ) (conn : Connection) (sys : CreateSys) (w : NetWorker) : NetWorker :=
  let w := w.setConnection id conn
  if sys.connect ≠ .connected then (w.closeFd fd).removeConnection id .ioFailed
  else if sys.epollAdd = false then (w.closeFd fd).removeConnection id .epollCtlFailed
  else w.registerFd id fd readMask

/-- `initial_conn` of `HandleCreateUdp`. -/
def initialUdp (id : ℕ) : Connection := { id := id, type := .udp, state := .connecting }

def handleCreateUdp (id : ℕ) (endpoint : Endpoint) (sys : CreateSys) (w : NetWorker) :
    NetWorker :=
  let conn := initialUdp id
  if id ∈ w.connections then w.removeConnection id .ioFailed
  else
    let w := w.setConnection id conn
    if buildSockAddr endpoint sys.resolved = false then w.removeConnection id .resolveFailed
    else
      match sys.socketFd with
      | none => w.removeConnection id .socketCreateFailed
      | some fd =>
        if sys.nonBlocking = false then
          (w.closeFd fd).removeConnection id .setNonBlockingFailed
        else w.connectUdp id fd { conn with fd := some fd, state := .connected } sys

def handleSend (id : ℕ) (payload : Bytes) (w : NetWorker) : NetWorker :=
  match w.connections.lookup id with
  | none =>
    { w.pushEvent { connId := id, isError := true, error := .connectionNotFound } with
      discarded := w.discarded ++ [payload] }
  | some conn =>
    if conn.state = .closed then { w with discarded := w.discarded ++ [payload] }
    else
      (w.setConnection id
        { conn with pendingSend := conn.pendingSend ++ [{ data := payload }] }).modFd
          conn.fd readWriteMask

def handleClose (id : ℕ) (w : NetWorker) : NetWorker := w.removeConnection id .ok

def handleCommand (create : ℕ → CreateSys) (w : NetWorker) : Command → NetWorker
  | .createTcp id endpoint timeoutMs => w.handleCreateTcp id endpoint timeoutMs (create id)
  | .createUdp id endpoint => w.handleCreateUdp id endpoint (create id)
  | .send id payload => w.handleSend id payload
  | .close id => w.handleClose id

/-- `ProcessCommands`: the whole queue is taken at once and executed in order. -/
def processCommands (create : ℕ → CreateSys) (w : NetWorker) : NetWorker :=
  w.commands.foldl (handleCommand create) { w with commands := [] }

/-! ## Reading and writing -/

/-- The state of the loop of `FlushWrite`. -/
structure Flush where
  pending : List OutboundChunk
  delivered : List Bytes := []
  bytes : ℕ := 0
  ops : ℕ := 0
  failed : Bool := false

/-- The bytes of the chunk that `send` has not taken. -/
def remaining (chunk : OutboundChunk) : ℕ := chunk.data.length - chunk.sentOffset

/-- Chunks without remaining bytes leave the front of the queue. -/
def popSent (st : Flush) : Flush :=
  { st with
    pending := st.pending.dropWhile fun chunk => remaining chunk = 0
    delivered :=
      st.delivered ++ (st.pending.takeWhile fun chunk => remaining chunk = 0).map (·.data) }

/-- One call of `send` for the front chunk, which takes at most what it is offered, and whether
the loop goes on. -/
def flushRound (result : SendResult) (st : Flush) : Flush × Bool :=
  match st.pending with
  | [] => (st, false)
  | chunk :: rest =>
    match result with
    | .wouldBlock => (st, false)
    | .failed => ⟨{ st with failed := true }, false⟩
    | .accepted n =>
      let n := min n (remaining chunk)
      if n = 0 then ⟨{ st with failed := true }, false⟩
      else
        ⟨{ st with
            pending := { chunk with sentOffset := chunk.sentOffset + n } :: rest
            bytes := st.bytes + n
            ops := st.ops + 1 }, true⟩

/-- The loop of `FlushWrite` on the answers of `send`. -/
def flushLoop : List SendResult → Flush → Flush
  | [], st => popSent st
  | result :: results, st =>
    let round := flushRound result (popSent st)
    if round.2 then flushLoop results round.1 else round.1

/-- The worker after the loop of `FlushWrite` on connection `conn`. -/
def flushed (id : ℕ) (conn : Connection) (st : Flush) (w : NetWorker) : NetWorker :=
  { w.setConnection id { conn with pendingSend := st.pending } with
    bytesSent := w.bytesSent + st.bytes
    sendOps := w.sendOps + st.ops
    delivered := w.delivered ++ st.delivered }

def flushWrite (id : ℕ) (sends : List SendResult) (w : NetWorker) : NetWorker :=
  match w.connections.lookup id with
  | none => w
  | some conn =>
    let st := flushLoop sends { pending := conn.pendingSend }
    let w := w.flushed id conn st
    if st.failed then w.removeConnection id .ioFailed
    else w.modFd conn.fd (if st.pending = [] then readMask else readWriteMask)

/-- A piece of data is handed on. -/
def received (id : ℕ) (bytes : Bytes) (w : NetWorker) : NetWorker :=
  { w.pushEvent { connId := id, data := bytes } with
    bytesReceived := w.bytesReceived + bytes.length
    recvOps := w.recvOps + 1 }

def drainRead (id : ℕ) : List RecvResult → NetWorker → NetWorker
  | [], w => w
  | .wouldBlock :: _, w => w
  | .failed :: _, w => w.removeConnection id .ioFailed
  | .data [] :: _, w => w.removeConnection id .ioFailed
  | .data (b :: bytes) :: results, w =>
    drainRead id results (w.received id (b :: bytes))

def completeTcpConnect (id : ℕ) (socketError : SocketError) (w : NetWorker) : NetWorker :=
  match w.connections.lookup id with
  | none => w
  | some conn =>
    if conn.type ≠ .tcp ∨ conn.state ≠ .connecting then w
    else
      match socketError with
      | .unavailable => w.removeConnection id .ioFailed
      | .none =>
        (w.setConnection id { conn with state := .connected }).modFd conn.fd
          (if conn.pendingSend = [] then readMask else readWriteMask)
      | .reported => w.removeConnection id .ioFailed

/-! ## The poll -/

def connectTimedOut (nowNs : ℤ) (conn : Connection) : Bool :=
  conn.type = .tcp && conn.state = .connecting && conn.connectTimeoutMs > 0 &&
    (nowNs - conn.connectBeginNs).tdiv 1000000 > conn.connectTimeoutMs

def checkConnectTimeouts (nowNs : ℤ) (order : List ℕ) (w : NetWorker) : NetWorker :=
  let timedOut := (w.connections.visit order).filterMap fun id =>
    match w.connections.lookup id with
    | some conn => if connectTimedOut nowNs conn then some conn.id else none
    | none => none
  timedOut.foldl (fun w id => w.removeConnection id .timeout) w

/-- A connection that is still connecting completes when it becomes writable. -/
def completeIfConnecting (conn : Connection) (socketError : SocketError) (w : NetWorker) :
    NetWorker :=
  if conn.type = .tcp ∧ conn.state = .connecting then w.completeTcpConnect conn.id socketError
  else w

/-- The `EPOLLOUT` branch of the dispatch, for the connection `conn` found under `key`. The source
reads the key again for its re-checks, from an entry a removal has erased by then; here it is the
key read at first. -/
def dispatchOut (key : ℕ) (conn : Connection) (ev : ReadyEvent) (w : NetWorker) : NetWorker :=
  if ev.mask.epollOut then
    let w := w.completeIfConnecting conn ev.socketError
    if key ∉ w.connections then w else w.flushWrite conn.id ev.sends
  else w

/-- The dispatch of one readiness event of a connection. -/
def dispatch (ev : ReadyEvent) (w : NetWorker) : NetWorker :=
  match w.fdToConn.lookup ev.fd with
  | none => w
  | some key =>
    match w.connections.lookup key with
    | none => w
    | some conn =>
      if ev.mask.epollErr || ev.mask.epollHup || ev.mask.epollRdHup then
        w.removeConnection conn.id .ioFailed
      else
        let w := w.dispatchOut key conn ev
        if key ∉ w.connections then w
        else if ev.mask.epollIn then w.drainRead conn.id ev.recvs
        else w

def handleReady (w : NetWorker) (ev : ReadyEvent) : NetWorker :=
  if w.wakeFd = some ev.fd then w.processCommands ev.create else w.dispatch ev

def pollOnce (sys : PollSys) (w : NetWorker) : NetWorker × NetErrc :=
  if w.started = false then (w, .notStarted)
  else
    let w := w.processCommands sys.create
    let w := w.checkConnectTimeouts sys.beforeNs sys.beforeOrder
    match sys.wait with
    | .interrupted => (w, .ok)
    | .failed => (w, .ioFailed)
    | .ready events =>
      let w := events.foldl handleReady w
      (w.checkConnectTimeouts sys.afterNs sys.afterOrder, .ok)

/-! ## Start and stop -/

def shutdownAll (w : NetWorker) : NetWorker :=
  { w with
    closed := w.closed ++ w.connections.entries.filterMap (·.2.fd) ++ w.wakeFd.toList
      ++ w.epollFd.toList
    discarded := w.discarded
      ++ w.connections.entries.flatMap (fun e => e.2.pendingSend.map (·.data))
      ++ w.commands.flatMap Command.payloads
    connections := ∅
    fdToConn := ∅
    interest := ∅
    wakeFd := none
    epollFd := none
    commands := [] }

def start (sys : StartSys) (w : NetWorker) : NetWorker × NetErrc :=
  if w.started then (w, .alreadyStarted)
  else
    match sys.epollFd with
    | none => ⟨{ w with started := false, epollFd := none }, .epollCreateFailed⟩
    | some epollFd =>
      let w := { w with started := true, epollFd := some epollFd }
      match sys.wakeFd with
      | none => ⟨{ w.shutdownAll with started := false }, .eventFdCreateFailed⟩
      | some wakeFd =>
        let w := { w with wakeFd := some wakeFd }
        if sys.epollAdd = false then ⟨{ w.shutdownAll with started := false }, .epollCtlFailed⟩
        else (w, .ok)

def stop (w : NetWorker) : NetWorker :=
  if w.started = false then w else { w with started := false }.shutdownAll

/-! ## Submissions -/

/-- `EnqueueCommand`: the command is in the queue even when the wake-up fails. -/
def enqueueCommand (cmd : Command) (sys : SubmitSys) (w : NetWorker) : NetWorker × NetErrc :=
  ⟨{ w with
      commands := w.commands ++ [cmd]
      submitted := w.submitted ++ cmd.payloads },
    if w.wakeFd ≠ none ∧ sys.wake = false then .ioFailed else .ok⟩

/-- The worker, the error and the id written to `conn_id` so far. -/
def createTcpConnection (endpoint : Endpoint) (connectTimeoutMs : ℤ) (sys : SubmitSys)
    (w : NetWorker) : NetWorker × NetErrc × ℕ :=
  if endpoint.host = [] ∨ endpoint.port = 0 ∨ connectTimeoutMs ≤ 0 then (w, .invalidArgument, 0)
  else if w.started = false then (w, .notStarted, 0)
  else
    let id := w.nextConnId
    let w := { w with nextConnId := id + 1 }
    if sys.node = false then (w, .queueFull, 0)
    else
      let (w, err) := w.enqueueCommand (.createTcp id endpoint connectTimeoutMs) sys
      (w, err, id)

def createUdpConnection (endpoint : Endpoint) (sys : SubmitSys) (w : NetWorker) :
    NetWorker × NetErrc × ℕ :=
  if endpoint.host = [] ∨ endpoint.port = 0 then (w, .invalidArgument, 0)
  else if w.started = false then (w, .notStarted, 0)
  else
    let id := w.nextConnId
    let w := { w with nextConnId := id + 1 }
    if sys.node = false then (w, .queueFull, 0)
    else
      let (w, err) := w.enqueueCommand (.createUdp id endpoint) sys
      (w, err, id)

def send (id : ℕ) (payload : Bytes) (sys : SubmitSys) (w : NetWorker) : NetWorker × NetErrc :=
  if id = 0 ∨ payload = [] then (w, .invalidArgument)
  else if w.started = false then (w, .notStarted)
  else if sys.node = false then (w, .queueFull)
  else w.enqueueCommand (.send id payload) sys

def closeConnection (id : ℕ) (sys : SubmitSys) (w : NetWorker) : NetWorker × NetErrc :=
  if id = 0 then (w, .invalidArgument)
  else if w.started = false then (w, .notStarted)
  else if sys.node = false then (w, .queueFull)
  else w.enqueueCommand (.close id) sys

end NetWorker

end TitanBench
