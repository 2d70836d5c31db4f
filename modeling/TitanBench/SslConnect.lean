import TitanBench.Ssl

/-!
# A connect that fails

`Connect` begins with `Close`, and after `ConnectTcp` each failure is followed by `Close` again.

**What is wrong.** A failure inside `ConnectTcp` is not. When the socket is already there, its
descriptor stays in the client.

* `doHandshake` — the handshake loop over the answers of `wolfSSL_connect`.
* `connectOn`, `connectLog` — `Connect` with this loop, and its calls on descriptors.
* `Prepared` — everything that can happen before the handshake.
* `connect_leaves_nothing_iff` — exactly when a connect that fails leaves nothing open.
-/

namespace TitanBench

/-- What `wolfSSL_connect` answers in one round, with the time since the start of the handshake
and whether the wait that follows succeeds. -/
inductive HandshakeCall
  | success
  | wantRead (elapsedMs : ℤ) (ready : Bool)
  | wantWrite (elapsedMs : ℤ) (ready : Bool)
  | failed (elapsedMs : ℤ) (err : ℤ)

/-- `DoHandshake`; `none` as long as it waits for the next answer. -/
def doHandshake (timeoutMs : ℤ) : List HandshakeCall → Option HandshakeResult
  | [] => none
  | .success :: _ => some .success
  | .wantRead elapsedMs ready :: calls =>
    if elapsedMs ≥ timeoutMs then some .timeout
    else if ready then doHandshake timeoutMs calls
    else some (.failed .waitReadable)
  | .wantWrite elapsedMs ready :: calls =>
    if elapsedMs ≥ timeoutMs then some .timeout
    else if ready then doHandshake timeoutMs calls
    else some (.failed .waitWritable)
  | .failed elapsedMs err :: _ =>
    if elapsedMs ≥ timeoutMs then some .timeout else some (.failed (.wolfssl err))

/-- A call that makes or closes a descriptor. -/
inductive FdCall
  | socket (fd : ℕ)
  | close (fd : ℕ)
  deriving DecidableEq

/-- Every descriptor that is made is closed later. -/
def AllClosed : List FdCall → Prop
  | [] => True
  | .socket fd :: log => .close fd ∈ log ∧ AllClosed log
  | .close _ :: log => AllClosed log

namespace SslClient

/-! ## Connect, up to the handshake and from it -/

/-- `Connect` before the handshake. -/
def prepare (options : SslOptions) (sys : SslSys) (c : SslClient) : SslClient × Option String :=
  match c.close.init sys with
  | (c, some msg) => (c, some msg)
  | (c, none) =>
    let c := { c with verifyPeer := options.verifyPeer, keepAlive := options.keepAlive }
    match c.connectTcp options.endpoint options.connectTimeoutMs sys with
    | (c, some msg) => (c, some msg)
    | (c, none) =>
      if sys.sslNew = false then (c.close, some "wolfSSL_new failed")
      else
        let c := { c with ssl := true }
        if sys.setFd = false then (c.close, some "wolfSSL_set_fd failed") else (c, none)

/-- `Connect` after the handshake. -/
def finish (c : SslClient) : HandshakeResult → SslClient × Option String
  | .timeout => (c.close, some "tls handshake timeout")
  | .failed failure => (c.close, some (failure.text "tls handshake failed"))
  | .success => ⟨{ c with connected := true }, none⟩

/-- `Connect` with the answers of `wolfSSL_connect`; `none` as long as it has not returned. -/
def connectOn (options : SslOptions) (sys : SslSys) (calls : List HandshakeCall) (c : SslClient) :
    Option (SslClient × Option String) :=
  match c.prepare options sys with
  | (c, some msg) => some (c, some msg)
  | (c, none) => (doHandshake options.handshakeTimeoutMs calls).map c.finish

/-! The calls on descriptors, function by function. -/

def closeLog (c : SslClient) : List FdCall := c.fd.toList.map .close

def connectTcpLog (endpoint : Endpoint) (timeoutMs : ℤ) (sys : SslSys) : List FdCall :=
  if timeoutMs ≤ 0 ∨ endpoint.host = [] ∨ endpoint.port = 0 ∨ sys.resolved = false then []
  else sys.socketFd.toList.map .socket

def prepareLog (options : SslOptions) (sys : SslSys) (c : SslClient) : List FdCall :=
  c.closeLog ++
    match c.close.init sys with
    | (_, some _) => []
    | (c, none) =>
      let c := { c with verifyPeer := options.verifyPeer, keepAlive := options.keepAlive }
      connectTcpLog options.endpoint options.connectTimeoutMs sys ++
        match c.connectTcp options.endpoint options.connectTimeoutMs sys with
        | (_, some _) => []
        | (c, none) => if sys.sslNew = false ∨ sys.setFd = false then c.closeLog else []

def connectLog (options : SslOptions) (sys : SslSys) (calls : List HandshakeCall) (c : SslClient) :
    List FdCall :=
  c.prepareLog options sys ++
    match c.prepare options sys with
    | (_, some _) => []
    | (c, none) =>
      match doHandshake options.handshakeTimeoutMs calls with
      | some .timeout | some (.failed _) => c.closeLog
      | some .success | none => []

theorem connect_eq (options : SslOptions) (sys : SslSys) (c : SslClient) :
    c.connect options sys =
      match c.prepare options sys with
      | (c, some msg) => (c, some msg)
      | (c, none) => c.finish sys.handshake := by
  unfold connect prepare
  rcases c.close.init sys with ⟨c, _ | msg⟩
  · simp only
    rcases connectTcp options.endpoint options.connectTimeoutMs sys _ with ⟨c, _ | msg⟩
    · by_cases hnew : sys.sslNew = false
      · simp [hnew]
      · by_cases hset : sys.setFd = false
        · simp [hnew, hset]
        · simp only [hnew, hset]
          cases sys.handshake <;> rfl
    · rfl
  · rfl

/-- The answers of `wolfSSL_connect` give one of the outcomes of the handshake. -/
theorem connectOn_eq {options : SslOptions} {sys : SslSys} {calls : List HandshakeCall}
    {c : SslClient} {r : SslClient × Option String}
    (h : c.connectOn options sys calls = some r) :
    ∃ handshake, c.connect options { sys with handshake := handshake } = r := by
  have hprepare : ∀ handshake,
      c.prepare options { sys with handshake := handshake } = c.prepare options sys :=
    fun _ => rfl
  simp only [connect_eq, hprepare]
  rw [connectOn] at h
  revert h
  rcases c.prepare options sys with ⟨c, _ | msg⟩
  · intro h
    obtain ⟨handshake, -, rfl⟩ := Option.map_eq_some_iff.mp h
    exact ⟨handshake, rfl⟩
  · intro h
    cases h
    exact ⟨.success, rfl⟩

/-! ## What can happen -/

/-- Nothing is left of a connection. -/
structure NoConnection (c : SslClient) : Prop where
  connected : c.connected = false
  ssl : c.ssl = false
  fd : c.fd = none

/-- What `ConnectTcp` does with the socket fails. -/
def SocketFails (sys : SslSys) : Prop :=
  sys.nonBlocking = false ∨ sys.connect = .failed ∨
    sys.connect = .inProgress ∧ (sys.writable = false ∨ sys.socketError ≠ .none)

/-- The socket is made, and what `ConnectTcp` does with it fails. -/
structure FailsOpen (options : SslOptions) (sys : SslSys) (c : SslClient) : Prop where
  init : c.initialized = true ∨ sys.wolfsslInit = true ∧ sys.ctxNew = true
  timeout : 0 < options.connectTimeoutMs
  resolves : options.endpoint.host ≠ [] ∧ options.endpoint.port ≠ 0 ∧ sys.resolved = true
  socket : sys.socketFd ≠ none
  fails : SocketFails sys

theorem close_noConnection (c : SslClient) : c.close.NoConnection := ⟨rfl, rfl, rfl⟩

/-- What `ConnectTcp` does to a client without a connection. -/
inductive TcpEnd (endpoint : Endpoint) (timeoutMs : ℤ) (sys : SslSys) (c : SslClient) :
    SslClient × Option String → List FdCall → Prop
  | refused {msg : String} {c' : SslClient} : c'.NoConnection →
      (timeoutMs ≤ 0 ∨ endpoint.host = [] ∨ endpoint.port = 0 ∨ sys.resolved = false ∨
        sys.socketFd = none) →
      TcpEnd endpoint timeoutMs sys c (c', some msg) []
  | failsOpen {msg : String} {fd : ℕ} : 0 < timeoutMs →
      endpoint.host ≠ [] ∧ endpoint.port ≠ 0 ∧ sys.resolved = true → sys.socketFd = some fd →
      SocketFails sys →
      TcpEnd endpoint timeoutMs sys c ({ c with fd := some fd }, some msg) [.socket fd]
  | connected {fd : ℕ} : ¬ SocketFails sys →
      TcpEnd endpoint timeoutMs sys c ({ c with fd := some fd }, none) [.socket fd]

theorem connectTcp_end (endpoint : Endpoint) (timeoutMs : ℤ) (sys : SslSys) {c : SslClient}
    (hc : c.NoConnection) :
    TcpEnd endpoint timeoutMs sys c (c.connectTcp endpoint timeoutMs sys)
      (connectTcpLog endpoint timeoutMs sys) := by
  unfold connectTcp connectTcpLog
  by_cases htimeout : timeoutMs ≤ 0
  · simp only [htimeout, true_or, if_true]
    exact .refused hc (.inl htimeout)
  by_cases hresolve : endpoint.host = [] ∨ endpoint.port = 0 ∨ sys.resolved = false
  · simp only [htimeout, hresolve, or_true, if_true, if_false]
    exact .refused hc (by tauto)
  simp only [htimeout, hresolve, or_self, if_false]
  cases hsocket : sys.socketFd with
  | none => exact .refused ⟨hc.connected, hc.ssl, rfl⟩ (by tauto)
  | some fd =>
    have hresolved : endpoint.host ≠ [] ∧ endpoint.port ≠ 0 ∧ sys.resolved = true := by
      simpa using hresolve
    have hopen := fun msg => @TcpEnd.failsOpen endpoint timeoutMs sys c msg fd (not_le.mp htimeout)
      hresolved hsocket
    dsimp only [Option.toList_some, List.map_cons, List.map_nil]
    by_cases hblock : sys.nonBlocking = false
    · rw [if_pos hblock]
      exact hopen _ (.inl hblock)
    rw [if_neg hblock]
    cases hconnect : sys.connect with
    | connected => exact .connected (by simp [SocketFails, hblock, hconnect])
    | failed => exact hopen _ (.inr (.inl hconnect))
    | inProgress =>
      by_cases hwait : sys.writable = false
      · simp only [hwait, if_true]
        exact hopen _ (.inr (.inr ⟨hconnect, .inl hwait⟩))
      simp only [hwait]
      by_cases herror : sys.socketError ≠ .none
      · rw [if_pos herror]
        exact hopen _ (.inr (.inr ⟨hconnect, .inr herror⟩))
      · rw [if_neg herror]
        exact .connected (by simp [SocketFails, hblock, hconnect, hwait, herror])

theorem init_noConnection (sys : SslSys) {c : SslClient} (hc : c.NoConnection) :
    (c.init sys).1.NoConnection := by
  unfold init
  split_ifs <;> exact ⟨hc.connected, hc.ssl, hc.fd⟩

theorem init_ok_iff (sys : SslSys) (c : SslClient) :
    (c.init sys).2 = none ↔
      c.initialized = true ∨ sys.wolfsslInit = true ∧ sys.ctxNew = true := by
  unfold init
  split_ifs <;> simp_all

/-- Everything that can happen before the handshake, and the calls on descriptors it makes. -/
inductive Prepared (options : SslOptions) (sys : SslSys) (c : SslClient) :
    SslClient × Option String → List FdCall → Prop
  | refused {msg : String} {c' : SslClient} : ¬ c.FailsOpen options sys → c'.NoConnection →
      Prepared options sys c (c', some msg) c.closeLog
  | failsOpen {msg : String} {c' : SslClient} {fd : ℕ} : c.FailsOpen options sys →
      c'.fd = some fd → Prepared options sys c (c', some msg) (c.closeLog ++ [.socket fd])
  | closedAgain {msg : String} {c' : SslClient} {fd : ℕ} : ¬ c.FailsOpen options sys →
      c'.NoConnection →
      Prepared options sys c (c', some msg) (c.closeLog ++ [.socket fd, .close fd])
  | ready {c' : SslClient} {fd : ℕ} : ¬ c.FailsOpen options sys → c'.fd = some fd →
      Prepared options sys c (c', none) (c.closeLog ++ [.socket fd])

theorem prepare_prepared (options : SslOptions) (sys : SslSys) (c : SslClient) :
    Prepared options sys c (c.prepare options sys) (c.prepareLog options sys) := by
  have hinit := init_noConnection sys c.close_noConnection
  have hok := init_ok_iff sys c.close
  unfold prepare prepareLog
  generalize c.close.init sys = r at hinit hok
  obtain ⟨c₁, _ | msg⟩ := r
  · dsimp only
    have htcp := connectTcp_end options.endpoint options.connectTimeoutMs sys
      (c := { c₁ with verifyPeer := options.verifyPeer, keepAlive := options.keepAlive })
      ⟨hinit.connected, hinit.ssl, hinit.fd⟩
    generalize connectTcp options.endpoint options.connectTimeoutMs sys _ = r at htcp
    generalize connectTcpLog options.endpoint options.connectTimeoutMs sys = log at htcp
    cases htcp with
    | refused hnone hwhy =>
      rw [List.append_nil, List.append_nil]
      refine .refused (fun hfails => ?_) hnone
      have := hfails.timeout
      have := hfails.resolves
      have := hfails.socket
      rcases hwhy with h | h | h | h | h <;> simp_all
      omega
    | failsOpen htimeout hresolves hsocket hfails =>
      rw [List.append_nil]
      exact .failsOpen ⟨hok.mp rfl, htimeout, hresolves, by simp [hsocket], hfails⟩ rfl
    | @connected fd hfine =>
      have hno : ¬ c.FailsOpen options sys := fun hfails => hfine hfails.fails
      dsimp only
      by_cases hnew : sys.sslNew = false
      · simp only [hnew, true_or, if_true]
        exact .closedAgain hno (close_noConnection _)
      by_cases hset : sys.setFd = false
      · simp only [hnew, hset, or_true, if_true]
        exact .closedAgain hno (close_noConnection _)
      · simp only [hnew, hset, or_self]
        exact .ready hno rfl
  · rw [List.append_nil]
    refine .refused (fun hfails => ?_) hinit
    exact absurd (hok.mpr hfails.init) (by simp)

/-! ## What a failed connect leaves -/

theorem closeLog_append (c : SslClient) (log : List FdCall) :
    AllClosed (c.closeLog ++ log) ↔ AllClosed log := by
  unfold closeLog
  cases c.fd <;> rfl

/-- **When a connect that fails leaves nothing open**: always but when the socket is made and what
`ConnectTcp` does with it fails. -/
theorem connect_leaves_nothing_iff {options : SslOptions} {sys : SslSys}
    {calls : List HandshakeCall} {c c' : SslClient} {err : Option String}
    (h : c.connectOn options sys calls = some (c', err)) :
    (err ≠ none → c'.NoConnection ∧ AllClosed (c.connectLog options sys calls)) ↔
      ¬ c.FailsOpen options sys := by
  have hprepared := prepare_prepared options sys c
  revert h
  unfold connectOn connectLog
  generalize c.prepare options sys = r at hprepared
  generalize c.prepareLog options sys = log at hprepared
  cases hprepared with
  | refused hno hnone =>
    rintro ⟨⟩
    refine ⟨fun _ => hno, fun _ _ => ⟨hnone, ?_⟩⟩
    simpa [AllClosed] using closeLog_append c []
  | failsOpen hfails hfd =>
    rintro ⟨⟩
    refine ⟨fun hclosed => ?_, fun hno => absurd hfails hno⟩
    have hnone := (hclosed (by simp)).1.fd
    rw [hfd] at hnone
    cases hnone
  | closedAgain hno hnone =>
    rintro ⟨⟩
    refine ⟨fun _ => hno, fun _ _ => ⟨hnone, ?_⟩⟩
    simp [closeLog_append, AllClosed]
  | @ready c₁ fd hno hfd =>
    dsimp only
    intro h
    obtain ⟨handshake, hcalls, hr⟩ := Option.map_eq_some_iff.mp h
    rw [hcalls]
    refine ⟨fun _ => hno, fun _ herr => ?_⟩
    have hclosed : AllClosed (c.closeLog ++ [.socket fd] ++ c₁.closeLog) := by
      have hlog : c₁.closeLog = [.close fd] := by simp [closeLog, hfd]
      simp [hlog, closeLog_append, AllClosed]
    cases handshake with
    | success =>
      cases hr
      exact absurd rfl herr
    | timeout =>
      cases hr
      exact ⟨c₁.close_noConnection, hclosed⟩
    | failed failure =>
      cases hr
      exact ⟨c₁.close_noConnection, hclosed⟩

/-- Connecting is refused after the socket was made. -/
theorem connect_refused_open :
    ¬ ∀ (options : SslOptions) (sys : SslSys) (calls : List HandshakeCall) (c c' : SslClient)
      (err : Option String), c.connectOn options sys calls = some (c', err) → err ≠ none →
        c'.connected = false ∧ c'.ssl = false ∧ c'.fd = none := by
  intro h
  have hclosed := h { endpoint := ⟨ascii "h", 443⟩ } { connect := .failed } [] {}
    { ({} : SslClient) with ctx := true, initialized := true, fd := some 7 }
    (some "connect failed") rfl (by simp)
  exact absurd hclosed.2.2 (by decide)

/-- The peer closes during the handshake. -/
theorem connect_handshake_closed :
    ({ ctx := true, initialized := true, keepAlive := true } : SslClient).NoConnection ∧
      AllClosed (connectLog { endpoint := ⟨ascii "h", 443⟩ } {}
        [.wantRead 5 true, .failed 9 (-308)] { fd := some 3 }) := by
  refine (@connect_leaves_nothing_iff { endpoint := ⟨ascii "h", 443⟩ } {}
    [.wantRead 5 true, .failed 9 (-308)] { fd := some 3 } _
    (some ((IoFailure.wolfssl (-308)).text "tls handshake failed")) rfl).mpr ?_ (by simp)
  intro hfails
  exact absurd hfails.fails (by simp [SocketFails])

end SslClient

end TitanBench
