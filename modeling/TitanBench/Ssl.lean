import TitanBench.Network

/-!
# The TLS client

`SslClient` and its one transaction, a GET request. The TLS library and the socket calls answer
through `SslSys` and `GetSys`; a wait that wolfSSL asks for is part of the answer.

* `SslClient.connect` — TCP connect and handshake; `none` for success, else the error text.
* `SslClient.performHttpGet` — request, response and result of one transaction.
-/

namespace TitanBench

structure SslOptions where
  endpoint : Endpoint := {}
  verifyPeer : Bool := false
  connectTimeoutMs : ℤ := 3000
  handshakeTimeoutMs : ℤ := 3000
  keepAlive : Bool := true

/-- How a blocking operation on the connection ended when it did not succeed. -/
inductive IoFailure
  | waitReadable
  | waitWritable
  | wolfssl (err : ℤ)
  deriving DecidableEq

def IoFailure.text (what : String) : IoFailure → String
  | .waitReadable => "wait readable timeout/failure"
  | .waitWritable => "wait writable timeout/failure"
  | .wolfssl err => what ++ " (wolfssl err=" ++ toString err ++ ")"

inductive HandshakeResult
  | success
  | timeout
  | failed (failure : IoFailure)

/-- What the calls made by `Init` and `Connect` answer. -/
structure SslSys where
  wolfsslInit : Bool := true
  ctxNew : Bool := true
  resolved : Bool := true
  socketFd : Option ℕ := some 7
  nonBlocking : Bool := true
  connect : ConnectResult := .connected
  writable : Bool := true
  socketError : SocketError := .none
  sslNew : Bool := true
  setFd : Bool := true
  handshake : HandshakeResult := .success

inductive SslRecv
  /-- No bytes: the end of the stream. -/
  | data (bytes : Bytes)
  | failed (failure : IoFailure)

/-- What happens during one transaction. -/
structure GetSys where
  sendFailure : Option IoFailure := none
  recvs : List SslRecv := []
  elapsedNs : ℤ := 0

structure SslClient where
  ctx : Bool := false
  ssl : Bool := false
  fd : Option ℕ := none
  initialized : Bool := false
  connected : Bool := false
  verifyPeer : Bool := false
  keepAlive : Bool := true
  deriving DecidableEq

namespace SslClient

def init (sys : SslSys) (c : SslClient) : SslClient × Option String :=
  if c.initialized then (c, none)
  else if sys.wolfsslInit = false then (c, some "wolfSSL_Init failed")
  else if sys.ctxNew = false then ⟨{ c with ctx := false }, some "wolfSSL_CTX_new failed"⟩
  else ⟨{ c with ctx := true, initialized := true }, none⟩

def close (c : SslClient) : SslClient := { c with connected := false, ssl := false, fd := none }

def connectTcp (endpoint : Endpoint) (timeoutMs : ℤ) (sys : SslSys) (c : SslClient) :
    SslClient × Option String :=
  if timeoutMs ≤ 0 then (c, some "invalid connect timeout")
  else if endpoint.host = [] ∨ endpoint.port = 0 ∨ sys.resolved = false then
    (c, some "resolve endpoint failed")
  else
    match sys.socketFd with
    | none => ⟨{ c with fd := none }, some "socket create failed"⟩
    | some fd =>
      let c := { c with fd := some fd }
      if sys.nonBlocking = false then (c, some "set non-blocking failed")
      else
        match sys.connect with
        | .connected => (c, none)
        | .failed => (c, some "connect failed")
        | .inProgress =>
          if sys.writable = false then (c, some (IoFailure.waitWritable.text ""))
          else if sys.socketError ≠ .none then (c, some "connect completion failed")
          else (c, none)

def connect (options : SslOptions) (sys : SslSys) (c : SslClient) : SslClient × Option String :=
  match c.close.init sys with
  | (c, some msg) => (c, some msg)
  | (c, none) =>
    let c := { c with verifyPeer := options.verifyPeer, keepAlive := options.keepAlive }
    match c.connectTcp options.endpoint options.connectTimeoutMs sys with
    | (c, some msg) => (c, some msg)
    | (c, none) =>
      if sys.sslNew = false then (c.close, some "wolfSSL_new failed")
      else
        let c := { c with ssl := true }
        if sys.setFd = false then (c.close, some "wolfSSL_set_fd failed")
        else
          match sys.handshake with
          | .timeout => (c.close, some "tls handshake timeout")
          | .failed failure => (c.close, some (failure.text "tls handshake failed"))
          | .success => ⟨{ c with connected := true }, none⟩

/-- The receive loop: the parser, the bytes received and the failure that ended it, if any. -/
def recvLoop : List SslRecv → ResponseParser → ℕ →
    ResponseParser × ℕ × Option (ResultStatus × String)
  | recvs, parser, received =>
    if parser.done then (parser, received, none)
    else
      match recvs with
      | [] =>
        (parser, received,
          some (.networkError, IoFailure.waitReadable.text "wolfSSL_read failed"))
      | .failed failure :: _ =>
        (parser, received, some (.networkError, failure.text "wolfSSL_read failed"))
      | .data [] :: _ => (parser.markEof, received, none)
      | .data (b :: bytes) :: rest =>
        match parser.feed (b :: bytes) with
        | (parser, false) =>
          (parser, received + (b :: bytes).length, some (.parseError, parser.errorMessage))
        | (parser, true) => recvLoop rest parser (received + (b :: bytes).length)

/-- The client afterwards, the result, and what was written to the response and the body. -/
def performHttpGet (request : Request) (sys : GetSys) (c : SslClient) :
    SslClient × Result × Response × Bytes :=
  if c.connected = false ∨ c.ssl = false then
    (c, { status := .networkError, error := "ssl client not connected" }, {}, [])
  else
    let sent := (buildGetRequest request).length
    match sys.sendFailure with
    | some failure =>
      (c, { status := .networkError
            bytesSent := sent
            error := failure.text "wolfSSL_write failed"
            latencyNs := sys.elapsedNs }, {}, [])
    | none =>
      match recvLoop sys.recvs {} 0 with
      | (_, received, some (status, msg)) =>
        (c, { status := status
              bytesSent := sent
              bytesReceived := received
              error := msg
              latencyNs := sys.elapsedNs }, {}, [])
      | (parser, received, none) =>
        if parser.done = false then
          (c, { status := .incomplete
                bytesSent := sent
                bytesReceived := received
                error := "http response incomplete"
                latencyNs := sys.elapsedNs }, {}, [])
        else
          let keep := request.keepAlive && parser.response.keepAlive && c.keepAlive
          (if keep then c else c.close,
            { status := .ok
              bytesSent := sent
              bytesReceived := received
              latencyNs := sys.elapsedNs }, parser.response, parser.body)

end SslClient

end TitanBench
