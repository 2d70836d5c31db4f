import TitanBench.Lib.Handles
import TitanBench.SslCalls
import TitanBench.SslConnect

/-!
# The life of a TLS client

A client is connected, used, closed and connected again, and closed by its destructor at last. On
the way it owns a context, a TLS object and a socket.

**What is left.** Nothing frees the context: `Close` keeps it for the next `Connect`, and the
destructor only closes.

* `SslClient.step` — the calls of a user, on what the system and wolfSSL answer.
  `connectOn_eq` and `performHttpGetOn_eq` make such calls of those that go answer by answer.
* `SslClient.deeds` — what a call opens and closes, function by function.
* `SslClient.takes_step` — each call opens and closes what changes in `SslClient.held`.
* `SslClient.lifetime` — the main result: over any life, each socket and each TLS object is
  released once, and a context at most is left.
* `SslClient.transaction_exact` — any transaction of any life sends its request and reads its
  stream.
-/

namespace TitanBench

open Handles

/-- What a client can own. Neither the context nor the TLS object has an identity here. -/
inductive SslHandle
  | ctx
  | ssl
  | socket (fd : ℕ)
  deriving DecidableEq

def FdCall.event : FdCall → Event SslHandle
  | .socket fd => .opened (.socket fd)
  | .close fd => .closed (.socket fd)

/-- A call of the client. -/
inductive SslStep
  | init (sys : SslSys)
  | connect (options : SslOptions) (sys : SslSys)
  | performHttpGet (request : Request) (sys : GetSys)
  | close

namespace SslClient

/-- The client after a call. -/
def step (c : SslClient) : SslStep → SslClient
  | .init sys => (c.init sys).1
  | .connect options sys => (c.connect options sys).1
  | .performHttpGet request sys => (c.performHttpGet request sys).1
  | .close => c.close

abbrev run : List SslStep → SslClient := Mealy.run step {}

abbrev visits : List SslStep → List (SslClient × SslStep) := Mealy.visits step {}

/-! ## What a call opens and closes -/

def closeDeeds (c : SslClient) : List (Event SslHandle) :=
  (if c.ssl then [.closed .ssl] else []) ++ c.closeLog.map FdCall.event

def initDeeds (sys : SslSys) (c : SslClient) : List (Event SslHandle) :=
  if c.initialized = false ∧ sys.wolfsslInit = true ∧ sys.ctxNew = true then [.opened .ctx] else []

/-- `Connect`, from the TLS object on. -/
def handshakeDeeds (sys : SslSys) (c : SslClient) : List (Event SslHandle) :=
  if sys.sslNew = false then c.closeDeeds
  else
    let c := { c with ssl := true }
    .opened .ssl ::
      if sys.setFd = false then c.closeDeeds
      else
        match sys.handshake with
        | .timeout | .failed _ => c.closeDeeds
        | .success => []

def connectDeeds (options : SslOptions) (sys : SslSys) (c : SslClient) : List (Event SslHandle) :=
  c.closeDeeds ++ c.close.initDeeds sys ++
    match c.close.init sys with
    | (_, some _) => []
    | (c, none) =>
      let c := { c with verifyPeer := options.verifyPeer, keepAlive := options.keepAlive }
      (connectTcpLog options.endpoint options.connectTimeoutMs sys).map FdCall.event ++
        match c.connectTcp options.endpoint options.connectTimeoutMs sys with
        | (_, some _) => []
        | (c, none) => c.handshakeDeeds sys

def performHttpGetDeeds (request : Request) (sys : GetSys) (c : SslClient) :
    List (Event SslHandle) :=
  match c.performHttpGet request sys with
  | (_, result, response, _) =>
    if result.status = .ok ∧ (request.keepAlive && response.keepAlive && c.keepAlive) = false then
      c.closeDeeds
    else []

/-- What a call opens and closes, in order. -/
def deeds (x : SslClient × SslStep) : List (Event SslHandle) :=
  match x.2 with
  | .init sys => x.1.initDeeds sys
  | .connect options sys => x.1.connectDeeds options sys
  | .performHttpGet request sys => x.1.performHttpGetDeeds request sys
  | .close => x.1.closeDeeds

/-- What the client owns. -/
def held (c : SslClient) : List SslHandle :=
  (if c.ssl then [.ssl] else []) ++ (c.fd.toList.map .socket ++ if c.ctx then [.ctx] else [])

/-! ## One call -/

/-- A client is connected through a TLS object, the object is for a socket, and the socket was made
with a context. -/
structure Sound (c : SslClient) : Prop where
  ctx : c.ctx = c.initialized
  fd : c.fd ≠ none → c.initialized = true
  ssl : c.ssl = true → c.fd ≠ none
  connected : c.connected = true → c.ssl = true

theorem sound_close {c : SslClient} (h : c.Sound) : c.close.Sound := by
  refine ⟨h.ctx, ?_, ?_, ?_⟩ <;> simp [close]

theorem held_close (c : SslClient) : c.close.held = if c.ctx then [.ctx] else [] := rfl

theorem takes_close (c : SslClient) : Takes c.held c.closeDeeds c.close.held := by
  have hssl : ∀ rest : List SslHandle, Takes ((if c.ssl then [.ssl] else []) ++ rest)
      (if c.ssl then [.closed .ssl] else []) rest := by
    intro rest
    cases c.ssl with
    | false => exact takes_nil rest
    | true => exact takes_closed rest .ssl
  have hfd : ∀ rest : List SslHandle, Takes (c.fd.toList.map .socket ++ rest)
      (c.closeLog.map FdCall.event) rest := by
    intro rest
    unfold closeLog
    cases c.fd with
    | none => exact takes_nil rest
    | some fd => exact takes_closed rest (.socket fd)
  exact (hssl _).append (hfd _)

/-- `Init` changes nothing, or it makes the context. -/
theorem init_cases {c : SslClient} (h : c.Sound) (sys : SslSys) :
    c.initDeeds sys = [] ∧ (c.init sys).1 = c ∧ ((c.init sys).2 = none → c.initialized = true) ∨
      c.initialized = false ∧ c.initDeeds sys = [.opened .ctx] ∧
        (c.init sys).1 = { c with ctx := true, initialized := true } := by
  unfold init initDeeds
  cases hinit : c.initialized with
  | true => exact .inl ⟨by simp, by simp, fun _ => rfl⟩
  | false =>
    have hctx : c.ctx = false := h.ctx.trans hinit
    by_cases hlib : sys.wolfsslInit = false
    · exact .inl (by simp [hlib])
    by_cases hnew : sys.ctxNew = false
    · refine .inl ⟨by simp [hnew], ?_, by simp [hlib, hnew]⟩
      rcases c with ⟨_, _, _, _, _, _, _⟩
      simp_all
    · exact .inr ⟨rfl, by simp [hlib, hnew], by simp [hlib, hnew]⟩

theorem sound_init {c : SslClient} (h : c.Sound) (sys : SslSys) : (c.init sys).1.Sound := by
  rcases init_cases h sys with ⟨-, hc, -⟩ | ⟨-, -, hc⟩
  · rw [hc]
    exact h
  · rw [hc]
    exact ⟨rfl, fun _ => rfl, h.ssl, h.connected⟩

theorem init_initialized {c : SslClient} (h : c.Sound) {sys : SslSys}
    (hok : (c.init sys).2 = none) : (c.init sys).1.initialized = true := by
  rcases init_cases h sys with ⟨-, hc, hinit⟩ | ⟨-, -, hc⟩
  · rw [hc]
    exact hinit hok
  · rw [hc]

theorem takes_init {c : SslClient} (h : c.Sound) (sys : SslSys) :
    Takes c.held (c.initDeeds sys) (c.init sys).1.held := by
  rcases init_cases h sys with ⟨hdeeds, hc, -⟩ | ⟨hinit, hdeeds, hc⟩
  · rw [hdeeds, hc]
    exact takes_nil _
  · have hfd : c.fd = none := by
      by_contra hfd
      exact absurd (h.fd hfd) (by simp [hinit])
    have hssl : c.ssl = false := by
      by_contra hssl
      exact h.ssl (by simpa using hssl) hfd
    have hctx : c.ctx = false := h.ctx.trans hinit
    rw [hdeeds, hc]
    unfold held
    rw [hfd, hssl, hctx]
    exact takes_opened [] SslHandle.ctx

/-- `ConnectTcp` on a client without a socket makes a socket or none. -/
theorem connectTcp_cases {c : SslClient} (hfd : c.fd = none) (endpoint : Endpoint) (timeoutMs : ℤ)
    (sys : SslSys) :
    ∃ fd, (c.connectTcp endpoint timeoutMs sys).1 = { c with fd := fd } ∧
      connectTcpLog endpoint timeoutMs sys = fd.toList.map .socket ∧
      ((c.connectTcp endpoint timeoutMs sys).2 = none → fd ≠ none) := by
  unfold connectTcp connectTcpLog
  by_cases htimeout : timeoutMs ≤ 0
  · exact ⟨none, by simp [htimeout, ← hfd], by simp [htimeout], by simp [htimeout]⟩
  by_cases hresolve : endpoint.host = [] ∨ endpoint.port = 0 ∨ sys.resolved = false
  · exact ⟨none, by simp [htimeout, hresolve, ← hfd], by simp [hresolve],
      by simp [htimeout, hresolve]⟩
  simp only [htimeout, hresolve, or_self, if_false]
  cases sys.socketFd with
  | none => exact ⟨none, rfl, rfl, by simp⟩
  | some fd =>
    refine ⟨some fd, ?_, rfl, by simp⟩
    cases sys.connect <;> dsimp only <;> split_ifs <;> rfl

/-- `Connect` from the TLS object on, for a client with a socket. -/
def handshakeEnd (sys : SslSys) (c : SslClient) : SslClient × Option String :=
  if sys.sslNew = false then (c.close, some "wolfSSL_new failed")
  else
    let c := { c with ssl := true }
    if sys.setFd = false then (c.close, some "wolfSSL_set_fd failed") else c.finish sys.handshake

theorem connect_eq_handshakeEnd (options : SslOptions) (sys : SslSys) (c : SslClient) :
    c.connect options sys =
      match c.close.init sys with
      | (c, some msg) => (c, some msg)
      | (c, none) =>
        let c := { c with verifyPeer := options.verifyPeer, keepAlive := options.keepAlive }
        match c.connectTcp options.endpoint options.connectTimeoutMs sys with
        | (c, some msg) => (c, some msg)
        | (c, none) => c.handshakeEnd sys := by
  rw [connect_eq]
  unfold prepare handshakeEnd
  rcases c.close.init sys with ⟨c, _ | msg⟩
  · dsimp only
    rcases connectTcp options.endpoint options.connectTimeoutMs sys _ with ⟨c, _ | msg⟩
    · dsimp only
      split_ifs <;> rfl
    · rfl
  · rfl

theorem takes_handshake {c : SslClient} (h : c.Sound) (hfd : c.fd ≠ none) (hssl : c.ssl = false)
    (sys : SslSys) :
    (c.handshakeEnd sys).1.Sound ∧
      Takes c.held (c.handshakeDeeds sys) (c.handshakeEnd sys).1.held := by
  have hopen : Sound { c with ssl := true } := ⟨h.ctx, h.fd, fun _ => hfd, fun _ => rfl⟩
  have hnew : Takes c.held [.opened SslHandle.ssl] (held { c with ssl := true }) := by
    have htakes := takes_opened c.held SslHandle.ssl
    unfold held at htakes ⊢
    rw [hssl] at htakes ⊢
    exact htakes
  have hclose := hnew.append (takes_close { c with ssl := true })
  unfold handshakeEnd handshakeDeeds
  split_ifs
  · exact ⟨sound_close h, takes_close c⟩
  · exact ⟨sound_close hopen, hclose⟩
  · cases sys.handshake with
    | success => exact ⟨⟨h.ctx, h.fd, fun _ => hfd, fun _ => rfl⟩, hnew⟩
    | timeout => exact ⟨sound_close hopen, hclose⟩
    | failed failure => exact ⟨sound_close hopen, hclose⟩

theorem takes_socket {c : SslClient} (hfd : c.fd = none) (hssl : c.ssl = false) (fd : Option ℕ) :
    Takes c.held ((fd.toList.map FdCall.socket).map FdCall.event) (held { c with fd := fd }) := by
  unfold held
  rw [hfd, hssl]
  cases fd with
  | none => exact takes_nil _
  | some fd => exact takes_opened _ (SslHandle.socket fd)

theorem takes_connect {c : SslClient} (h : c.Sound) (options : SslOptions) (sys : SslSys) :
    (c.connect options sys).1.Sound ∧
      Takes c.held (c.connectDeeds options sys) (c.connect options sys).1.held := by
  have hinit := (takes_close c).append (takes_init (sound_close h) sys)
  have hsound := sound_init (sound_close h) sys
  have hnone := init_noConnection sys c.close_noConnection
  have hready := @init_initialized c.close (sound_close h) sys
  rw [connect_eq_handshakeEnd]
  unfold connectDeeds
  generalize c.closeDeeds ++ c.close.initDeeds sys = before at hinit ⊢
  generalize c.close.init sys = r₁ at hinit hsound hnone hready ⊢
  rcases r₁ with ⟨c₁, _ | msg⟩
  · dsimp only at hinit hsound hnone hready ⊢
    obtain ⟨fd, hc₂, hlog, hfd⟩ := @connectTcp_cases
      { c₁ with verifyPeer := options.verifyPeer, keepAlive := options.keepAlive } hnone.fd
      options.endpoint options.connectTimeoutMs sys
    have hsocket := hinit.append (takes_socket (c :=
      { c₁ with verifyPeer := options.verifyPeer, keepAlive := options.keepAlive })
      hnone.fd hnone.ssl fd)
    have htcp : Sound { c₁ with verifyPeer := options.verifyPeer, keepAlive := options.keepAlive,
                                fd := fd } :=
      ⟨hsound.ctx, fun _ => hready rfl, fun hssl => absurd hssl (by simp [hnone.ssl]),
        hsound.connected⟩
    rw [hlog]
    generalize connectTcp options.endpoint options.connectTimeoutMs sys _ = r₂ at hc₂ hfd ⊢
    obtain ⟨c₂, err⟩ := r₂
    dsimp only at hc₂
    subst hc₂
    rcases err with _ | msg
    · dsimp only
      obtain ⟨hlast, htakes⟩ := takes_handshake htcp (hfd rfl) hnone.ssl sys
      rw [← List.append_assoc]
      exact ⟨hlast, hsocket.append htakes⟩
    · rw [List.append_nil]
      exact ⟨htcp, hsocket⟩
  · rw [List.append_nil]
    exact ⟨hsound, hinit⟩

/-- A transaction closes the client only after a response. -/
theorem performHttpGet_client {c : SslClient} (h : c.Sound) (request : Request) (sys : GetSys) :
    (c.performHttpGet request sys).1 =
      if (c.performHttpGet request sys).2.1.status = .ok ∧
          (request.keepAlive && (c.performHttpGet request sys).2.2.1.keepAlive && c.keepAlive)
            = false then
        c.close
      else c := by
  by_cases hconn : c.connected = true
  · have hgot := performHttpGet_got request sys hconn (h.connected hconn)
    generalize c.performHttpGet request sys = r at hgot ⊢
    generalize sys.ending = ending at hgot
    generalize sys.sawEof = eof at hgot
    have hkeep : ∀ r : Response, c.keep request r =
        if (request.keepAlive && r.keepAlive && c.keepAlive) = false then c.close else c := by
      intro r
      unfold keep
      cases request.keepAlive && r.keepAlive && c.keepAlive <;> rfl
    cases hgot with
    | answered hok => simp only [hkeep, hok, true_and]
    | closed hok => simp only [hkeep, hok, true_and]
    | failed hstatus hne => rw [if_neg (fun hand => hne (hstatus ▸ hand.1))]
  · unfold performHttpGet
    rw [if_pos (.inl (by simpa using hconn)), if_neg (by simp)]

/-- **One call.** What it opens and closes is what the client owns before and after. -/
theorem takes_step {c : SslClient} (h : c.Sound) (s : SslStep) :
    (c.step s).Sound ∧ Takes c.held (deeds (c, s)) (c.step s).held := by
  cases s with
  | init sys => exact ⟨sound_init h sys, takes_init h sys⟩
  | connect options sys => exact takes_connect h options sys
  | performHttpGet request sys =>
    have hc := performHttpGet_client h request sys
    unfold step deeds performHttpGetDeeds
    dsimp only
    split_ifs at hc ⊢
    · rw [hc]
      exact ⟨sound_close h, takes_close c⟩
    · rw [hc]
      exact ⟨h, takes_nil _⟩
  | close => exact ⟨sound_close h, takes_close c⟩

/-! ## Any life -/

theorem sound_new : Sound {} := by
  refine ⟨rfl, ?_, ?_, ?_⟩ <;> simp

theorem sound_run (steps : List SslStep) : (run steps).Sound :=
  @Mealy.run_invariant _ _ step Sound (fun _ => True) (fun _ s _ h => (takes_step h s).1) {}
    sound_new steps fun _ _ => trivial

theorem takes_run (steps : List SslStep) :
    Takes [] ((visits steps).flatMap deeds) (run steps).held := by
  refine @takes_visits _ _ _ _ step held deeds {} steps fun x hx => ?_
  have hsound := @Mealy.visited_invariant _ _ step Sound (fun _ s h => (takes_step h s).1) {}
    sound_new steps x hx
  exact (takes_step hsound x.2).2

/-! Nothing frees the context. -/

theorem closeDeeds_ctx (c : SslClient) : .closed .ctx ∉ c.closeDeeds := by
  unfold closeDeeds closeLog
  cases c.ssl <;> cases c.fd <;> simp [FdCall.event]

theorem handshakeDeeds_ctx (sys : SslSys) (c : SslClient) :
    .closed .ctx ∉ c.handshakeDeeds sys := by
  unfold handshakeDeeds
  split_ifs
  · exact closeDeeds_ctx c
  · simpa using closeDeeds_ctx _
  · cases sys.handshake <;> simp [closeDeeds_ctx]

theorem connectDeeds_ctx (options : SslOptions) (sys : SslSys) (c : SslClient) :
    .closed .ctx ∉ c.connectDeeds options sys := by
  have hinit : .closed .ctx ∉ c.close.initDeeds sys := by
    unfold initDeeds
    split_ifs <;> simp
  have htcp : .closed .ctx ∉
      (connectTcpLog options.endpoint options.connectTimeoutMs sys).map FdCall.event := by
    unfold connectTcpLog
    split_ifs <;> simp [FdCall.event]
  unfold connectDeeds
  rcases c.close.init sys with ⟨c₁, _ | msg⟩
  · dsimp only
    rcases connectTcp options.endpoint options.connectTimeoutMs sys _ with ⟨c₂, _ | msg⟩
    · simp [closeDeeds_ctx, hinit, htcp, handshakeDeeds_ctx]
    · simp [closeDeeds_ctx, hinit, htcp]
  · simp [closeDeeds_ctx, hinit]

theorem deeds_ctx (x : SslClient × SslStep) : .closed .ctx ∉ deeds x := by
  obtain ⟨c, s⟩ := x
  unfold deeds
  cases s with
  | init sys =>
    dsimp only
    unfold initDeeds
    split_ifs <;> simp
  | connect options sys => exact connectDeeds_ctx options sys c
  | performHttpGet request sys =>
    dsimp only
    unfold performHttpGetDeeds
    dsimp only
    split_ifs
    · exact closeDeeds_ctx c
    · simp
  | close => exact closeDeeds_ctx c

theorem visits_ctx (steps : List SslStep) : .closed .ctx ∉ (visits steps).flatMap deeds := by
  rw [List.mem_flatMap]
  rintro ⟨x, -, hx⟩
  exact deeds_ctx x hx

/-! What is owned. -/

theorem Sound.owns {c : SslClient} (h : c.Sound) (hconn : c.connected = true) :
    .ssl ∈ c.held ∧ ∃ fd, c.fd = some fd ∧ .socket fd ∈ c.held := by
  have hssl := h.connected hconn
  obtain ⟨fd, hfd⟩ := Option.ne_none_iff_exists'.mp (h.ssl hssl)
  refine ⟨?_, fd, hfd, ?_⟩ <;> simp [held, hssl, hfd]

/-- Of contexts no more than one is made, as long as none is released. -/
theorem made_le_one {c : SslClient} {owned : List SslHandle} {events : List (Event SslHandle)}
    (haudit : audit [] events = some owned) (howned : owned.Perm c.held)
    (hctx : .closed .ctx ∉ events) : events.count (.opened .ctx) ≤ 1 := by
  have hcount := count_of_audit haudit .ctx
  have hnone := List.count_eq_zero.mpr hctx
  have hheld : c.held.count .ctx ≤ 1 := by
    unfold held
    cases c.ssl <;> cases c.fd <;> cases c.ctx <;> simp
  have hperm := howned.count_eq .ctx
  have hnil : ([] : List SslHandle).count .ctx = 0 := rfl
  omega

/-- **The life of a client.** Whatever is called in whatever order, and with the destructor at the
end, only what is owned is released: each socket and each TLS object once, and the context, of
which there is one at most, never. A client that is connected owns what it is connected through. -/
theorem lifetime (steps : List SslStep) :
    (∃ owned, audit [] ((visits steps).flatMap deeds) = some owned ∧
      ((run steps).connected = true →
        .ssl ∈ owned ∧ ∃ fd, (run steps).fd = some fd ∧ .socket fd ∈ owned)) ∧
    let events := (visits steps).flatMap deeds ++ (run steps).closeDeeds
    audit [] events = some (if (run steps).initialized then [.ctx] else []) ∧
      (∀ fd, events.count (.opened (.socket fd)) = events.count (.closed (.socket fd))) ∧
      events.count (.opened .ssl) = events.count (.closed .ssl) ∧
      events.count (.opened .ctx) ≤ 1 ∧ .closed .ctx ∉ events := by
  have hsound := sound_run steps
  constructor
  · obtain ⟨owned, hperm, haudit⟩ := takes_run steps [] (.refl _)
    refine ⟨owned, haudit, fun hconn => ?_⟩
    obtain ⟨hssl, fd, hfd, hsocket⟩ := hsound.owns hconn
    exact ⟨hperm.mem_iff.mpr hssl, fd, hfd, hperm.mem_iff.mpr hsocket⟩
  · intro events
    obtain ⟨last, hlast, haudit⟩ := (takes_run steps).append (takes_close (run steps)) [] (.refl _)
    have hctx : .closed .ctx ∉ events :=
      List.not_mem_append (visits_ctx steps) (closeDeeds_ctx (run steps))
    have hmade := made_le_one haudit hlast hctx
    rw [held_close, hsound.ctx] at hlast
    have heq : last = if (run steps).initialized then [.ctx] else [] := by
      cases hinit : (run steps).initialized with
      | true =>
        rw [hinit] at hlast
        exact List.perm_singleton.mp hlast
      | false =>
        rw [hinit] at hlast
        exact hlast.eq_nil
    have hbalance : ∀ handle, handle ≠ .ctx →
        events.count (.opened handle) = events.count (.closed handle) := by
      intro handle hne
      have hcount := count_of_audit haudit handle
      have hnone : last.count handle = 0 := by
        rw [heq]
        split_ifs <;> simp [hne.symm]
      rw [hnone, List.count_nil, Nat.zero_add, Nat.zero_add] at hcount
      exact hcount
    rw [heq] at haudit
    exact ⟨haudit, fun fd => hbalance _ (by simp), hbalance _ (by simp), hmade, hctx⟩

/-- **Any transaction of any life.** Whatever wolfSSL and the waits answer, what was written is a
front of the request; if it is not all of it, the result is a network error; and if it is, the
result is read off the stream alone, however it was cut. The request counts as sent in both. -/
theorem transaction_exact (steps : List SslStep) (request : Request) (calls : GetCalls)
    {r : SslClient × Result × Response × Bytes} (hconn : (run steps).connected = true)
    (hr : (run steps).performHttpGetOn request calls = some r) :
    r.2.1.bytesSent = (buildGetRequest request).length ∧
      ∃ rest, buildGetRequest request
          = ((run steps).send (buildGetRequest request) calls.writes).1 ++ rest ∧
        if rest = [] then
          (run steps).Transacts request ((run steps).stream calls.reads).1
            ((run steps).stream calls.reads).2 r
        else r.1 = run steps ∧ r.2.1.status = .networkError ∧ r.2.1.bytesReceived = 0 := by
  have hsound := sound_run steps
  generalize run steps = c at hconn hr hsound ⊢
  have hssl := hsound.connected hconn
  obtain ⟨rest, hrest, hok, hfailure⟩ := send_end hconn hssl (hsound.ssl hssl)
    (buildGetRequest_ne_nil request) calls.writes
  have heq := performHttpGetOn_eq hsound.connected (fun _ => hsound.ssl hssl) hr
  rcases hsend : (c.send (buildGetRequest request) calls.writes).2 with _ | failure | n
  · unfold performHttpGetOn at hr
    simp [hconn, hssl, hsend] at hr
  · obtain ⟨hne, io, rfl⟩ := hfailure _ hsend
    unfold performHttpGetOn at hr
    simp only [hconn, hssl, hsend] at hr
    cases hr
    refine ⟨rfl, rest, hrest, ?_⟩
    rw [if_neg hne]
    exact ⟨rfl, rfl, rfl⟩
  · have hnone : (c.getSys request calls).sendFailure = none := by simp [getSys, hsend]
    have htransacts := performHttpGet_transacts request hconn hssl hnone
    rw [heq] at htransacts
    refine ⟨?_, rest, hrest, ?_⟩
    · rw [← heq]
      exact performHttpGet_bytesSent request _ hconn hssl
    · rw [if_pos (hok n hsend)]
      exact htransacts

/-- A request written in two pieces, and a response that arrives after an interrupted wait. -/
def twoWrites : GetCalls where
  writes := [.wrote 10, .wantWrite [.ready], .wrote 53]
  reads := [[.wantRead [.interrupted, .ready],
    .read (ascii "HTTP/1.1 200 OK\r\nContent-Length: 0\r\n\r\n")]]

/-- The client that receives it. -/
def connectedClient : List SslStep := [.connect { endpoint := ⟨ascii "h", 443⟩ } {}]

theorem transaction_exact_two_writes :
    ∃ r, (run connectedClient).performHttpGetOn {} twoWrites = some r ∧
      r.2.1.bytesSent = (buildGetRequest {}).length ∧
      ∃ rest, buildGetRequest {}
          = ((run connectedClient).send (buildGetRequest {}) twoWrites.writes).1 ++ rest ∧
        if rest = [] then
          (run connectedClient).Transacts {} ((run connectedClient).stream twoWrites.reads).1
            ((run connectedClient).stream twoWrites.reads).2 r
        else
          r.1 = run connectedClient ∧ r.2.1.status = .networkError ∧ r.2.1.bytesReceived = 0 := by
  have hreturns : ((run connectedClient).performHttpGetOn {} twoWrites).isSome = true := by
    decide +kernel
  obtain ⟨r, hr⟩ := Option.isSome_iff_exists.mp hreturns
  exact ⟨r, hr, transaction_exact connectedClient {} twoWrites (by decide) hr⟩

end SslClient

end TitanBench
