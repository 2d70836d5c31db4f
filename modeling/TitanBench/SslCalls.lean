import TitanBench.SslGet

/-!
# A transaction, call by call

wolfSSL writes and reads in pieces, and may ask the caller to wait first. `Send` and `Recv` hide
this: a transaction depends on the bytes alone, not on the calls that moved them.

**The calls.** Each answer of `wolfSSL_write` or `wolfSSL_read` that asks for a wait comes with the
answers of the `poll` it leads to, which may be interrupted. Where the answers run out, the call
has not returned.

* `send`, `recv`, `performHttpGetOn` — the functions over these answers.
* `send_contract` — what was written is a front of the data, and all of it exactly when `Send`
  succeeds.
* `performHttpGetOn_eq` — the transaction refines the one of `TitanBench.Ssl`.
* `Transacts` — what a transaction is for, in terms of the request and the stream of the answer.
-/

namespace TitanBench

open ResponseParser

/-- What one call of `poll` answers. -/
inductive PollCall
  | ready
  | timeout
  | interrupted
  | failed

/-- What one call of `wolfSSL_write` answers. -/
inductive WriteCall
  | wrote (n : ℕ)
  | wantRead (polls : List PollCall)
  | wantWrite (polls : List PollCall)
  | failed (err : ℤ)

/-- What one call of `wolfSSL_read` answers. -/
inductive ReadCall
  /-- No bytes: the answer is zero. -/
  | read (bytes : Bytes)
  | wantRead (polls : List PollCall)
  | wantWrite (polls : List PollCall)
  | failed (err : ℤ)

/-- The errors of `Send`, `Recv` and the waits. -/
inductive CallFailure
  | invalidSend
  | invalidRecv
  | invalidFd
  | io (failure : IoFailure)
  deriving DecidableEq

def CallFailure.text (what : String) : CallFailure → String
  | .invalidSend => "invalid send state"
  | .invalidRecv => "invalid recv state"
  | .invalidFd => "invalid fd"
  | .io failure => failure.text what

/-- `PollFd`; `none` as long as the call is interrupted. -/
def pollFd : List PollCall → Option Bool
  | [] => none
  | .ready :: _ => some true
  | .timeout :: _ => some false
  | .interrupted :: calls => pollFd calls
  | .failed :: _ => some false

namespace SslClient

/-- What the two waits share; the failure is the one they report. -/
def waitFd (failure : IoFailure) (polls : List PollCall) (c : SslClient) :
    Option (Except CallFailure Unit) :=
  match c.fd with
  | none => some (.error .invalidFd)
  | some _ => (pollFd polls).map fun ready => if ready then .ok () else .error (.io failure)

def waitFdReadable (polls : List PollCall) (c : SslClient) : Option (Except CallFailure Unit) :=
  c.waitFd .waitReadable polls

def waitFdWritable (polls : List PollCall) (c : SslClient) : Option (Except CallFailure Unit) :=
  c.waitFd .waitWritable polls

/-- After a wait `Send` returns or goes on as `next`. -/
def sendWaited (next : Bytes × Option (Except CallFailure ℕ)) :
    Option (Except CallFailure Unit) → Bytes × Option (Except CallFailure ℕ)
  | none => ([], none)
  | some (.error failure) => ([], some (.error failure))
  | some (.ok ()) => next

/-- The loop of `Send`: the bytes that were written and what it returns. -/
def sendLoop (data : Bytes) (c : SslClient) :
    ℕ → List WriteCall → Bytes × Option (Except CallFailure ℕ)
  | offset, calls =>
    if data.length ≤ offset then ([], some (.ok offset))
    else
      match calls with
      | [] => ([], none)
      | .wrote n :: calls =>
        let (written, result) := c.sendLoop data (offset + n) calls
        ((data.drop offset).take n ++ written, result)
      | .wantRead polls :: calls =>
        sendWaited (c.sendLoop data offset calls) (c.waitFdReadable polls)
      | .wantWrite polls :: calls =>
        sendWaited (c.sendLoop data offset calls) (c.waitFdWritable polls)
      | .failed err :: _ => ([], some (.error (.io (.wolfssl err))))

def send (data : Bytes) (calls : List WriteCall) (c : SslClient) :
    Bytes × Option (Except CallFailure ℕ) :=
  if c.connected = false ∨ c.ssl = false ∨ data = [] then ([], some (.error .invalidSend))
  else c.sendLoop data 0 calls

/-- After a wait `Recv` returns or goes on as `next`. -/
def recvWaited (next : Option (Except CallFailure Bytes)) :
    Option (Except CallFailure Unit) → Option (Except CallFailure Bytes)
  | none => none
  | some (.error failure) => some (.error failure)
  | some (.ok ()) => next

/-- The loop of `Recv`. -/
def recvCalls (c : SslClient) : List ReadCall → Option (Except CallFailure Bytes)
  | [] => none
  | .read bytes :: _ => some (.ok bytes)
  | .wantRead polls :: calls => recvWaited (c.recvCalls calls) (c.waitFdReadable polls)
  | .wantWrite polls :: calls => recvWaited (c.recvCalls calls) (c.waitFdWritable polls)
  | .failed err :: _ => some (.error (.io (.wolfssl err)))

def recv (calls : List ReadCall) (c : SslClient) : Option (Except CallFailure Bytes) :=
  if c.connected = false ∨ c.ssl = false then some (.error .invalidRecv) else c.recvCalls calls

/-- The receive loop of `PerformHttpGet`, with the answers for each `Recv`. -/
def recvLoopOn (c : SslClient) :
    List (List ReadCall) → ResponseParser → ℕ →
      Option (ResponseParser × ℕ × Option (ResultStatus × String))
  | recvs, parser, received =>
    if parser.done then some (parser, received, none)
    else
      match recvs with
      | [] => none
      | calls :: rest =>
        match c.recv calls with
        | none => none
        | some (.error failure) =>
          some (parser, received, some (.networkError, failure.text "wolfSSL_read failed"))
        | some (.ok []) => some (parser.markEof, received, none)
        | some (.ok (b :: bytes)) =>
          match parser.feed (b :: bytes) with
          | (parser, false) =>
            some (parser, received + (b :: bytes).length,
              some (.parseError, parser.errorMessage))
          | (parser, true) => c.recvLoopOn rest parser (received + (b :: bytes).length)

end SslClient

/-- What wolfSSL answers during one transaction. -/
structure GetCalls where
  writes : List WriteCall := []
  reads : List (List ReadCall) := []
  elapsedNs : ℤ := 0

namespace SslClient

/-- `PerformHttpGet`; `none` as long as it has not returned. -/
def performHttpGetOn (request : Request) (calls : GetCalls) (c : SslClient) :
    Option (SslClient × Result × Response × Bytes) :=
  if c.connected = false ∨ c.ssl = false then
    some (c, { status := .networkError, error := "ssl client not connected" }, {}, [])
  else
    let req := buildGetRequest request
    match (c.send req calls.writes).2 with
    | none => none
    | some (.error failure) =>
      some (c, { status := .networkError
                 bytesSent := req.length
                 error := failure.text "wolfSSL_write failed"
                 latencyNs := calls.elapsedNs }, {}, [])
    | some (.ok _) =>
      match c.recvLoopOn calls.reads {} 0 with
      | none => none
      | some (_, received, some (status, msg)) =>
        some (c, { status := status
                   bytesSent := req.length
                   bytesReceived := received
                   error := msg
                   latencyNs := calls.elapsedNs }, {}, [])
      | some (parser, received, none) =>
        if parser.done = false then
          some (c, { status := .incomplete
                     bytesSent := req.length
                     bytesReceived := received
                     error := "http response incomplete"
                     latencyNs := calls.elapsedNs }, {}, [])
        else
          let keep := request.keepAlive && parser.response.keepAlive && c.keepAlive
          some (if keep then c else c.close,
            { status := .ok
              bytesSent := req.length
              bytesReceived := received
              latencyNs := calls.elapsedNs }, parser.response, parser.body)

/-! ## Waits and writes -/

theorem waitFd_failure {io : IoFailure} {polls : List PollCall} {c : SslClient} (hfd : c.fd ≠ none)
    {failure : CallFailure} (h : c.waitFd io polls = some (.error failure)) : failure = .io io := by
  obtain ⟨fd, hfd⟩ := Option.ne_none_iff_exists'.mp hfd
  unfold waitFd at h
  rw [hfd] at h
  obtain ⟨ready, -, hready⟩ := Option.map_eq_some_iff.mp h
  cases ready
  · simpa using hready.symm
  · simp at hready

/-- How `Send` can stand: the bytes of `left` it has written are a front of them, and all of them
when it has returned without an error. -/
def SendEnd (left : Bytes) (sent : Bytes × Option (Except CallFailure ℕ)) : Prop :=
  ∃ rest, left = sent.1 ++ rest ∧ (∀ n, sent.2 = some (.ok n) → rest = []) ∧
    ∀ failure, sent.2 = some (.error failure) → rest ≠ [] ∧ ∃ io, failure = .io io

theorem SendEnd.waited {left : Bytes} {next : Bytes × Option (Except CallFailure ℕ)}
    (hleft : left ≠ []) (h : SendEnd left next) {wait : Option (Except CallFailure Unit)}
    (hwait : ∀ failure, wait = some (.error failure) → ∃ io, failure = .io io) :
    SendEnd left (sendWaited next wait) := by
  rcases wait with _ | failure | ⟨⟩
  · exact ⟨left, rfl, fun _ hok => by simp [sendWaited] at hok,
      fun _ herror => by simp [sendWaited] at herror⟩
  · refine ⟨left, rfl, fun _ hok => by simp [sendWaited] at hok, fun other hother => ⟨hleft, ?_⟩⟩
    have heq : failure = other := by simpa [sendWaited] using hother
    exact heq ▸ hwait failure rfl
  · exact h

/-- What the loop of `Send` does with the data from `offset` on. -/
theorem sendLoop_end {c : SslClient} (hfd : c.fd ≠ none) (data : Bytes) (offset : ℕ)
    (calls : List WriteCall) : SendEnd (data.drop offset) (c.sendLoop data offset calls) := by
  induction calls generalizing offset with
  | nil =>
    unfold sendLoop
    split_ifs with hall
    · exact ⟨[], by simpa using hall, by simp, by simp⟩
    · exact ⟨data.drop offset, by simp, by simp, by simp⟩
  | cons call calls ih =>
    unfold sendLoop
    split_ifs with hall
    · exact ⟨[], by simpa using hall, by simp, by simp⟩
    have hleft : data.drop offset ≠ [] := by simpa using hall
    cases call with
    | wrote n =>
      obtain ⟨rest, hrest, hends⟩ := ih (offset + n)
      refine ⟨rest, ?_, hends⟩
      dsimp only
      rw [List.append_assoc, ← hrest, ← List.drop_drop, List.take_append_drop]
    | wantRead polls =>
      exact (ih offset).waited hleft fun failure h => ⟨_, waitFd_failure hfd h⟩
    | wantWrite polls =>
      exact (ih offset).waited hleft fun failure h => ⟨_, waitFd_failure hfd h⟩
    | failed err =>
      refine ⟨data.drop offset, by simp, by simp, fun failure hfailure => ⟨hleft, .wolfssl err, ?_⟩⟩
      simpa using hfailure.symm

theorem send_end {c : SslClient} (hconn : c.connected = true) (hssl : c.ssl = true)
    (hfd : c.fd ≠ none) {data : Bytes} (hdata : data ≠ []) (calls : List WriteCall) :
    SendEnd data (c.send data calls) := by
  unfold send
  rw [if_neg (by simp [hconn, hssl, hdata])]
  exact sendLoop_end hfd data 0 calls

theorem recvWaited_failure {io : IoFailure} {polls : List PollCall} {c : SslClient}
    (hfd : c.fd ≠ none) {next : Option (Except CallFailure Bytes)} {failure : CallFailure}
    (hnext : next = some (.error failure) → ∃ io, failure = .io io)
    (h : recvWaited next (c.waitFd io polls) = some (.error failure)) :
    ∃ io, failure = .io io := by
  rcases hwait : c.waitFd io polls with _ | other | ⟨⟩
  · rw [hwait] at h
    cases h
  · rw [hwait] at h
    cases h
    exact ⟨io, waitFd_failure hfd hwait⟩
  · rw [hwait] at h
    exact hnext h

theorem recvCalls_failure {c : SslClient} (hfd : c.fd ≠ none) {calls : List ReadCall}
    {failure : CallFailure} (h : c.recvCalls calls = some (.error failure)) :
    ∃ io, failure = .io io := by
  induction calls with
  | nil => cases h
  | cons call calls ih =>
    cases call with
    | read bytes => cases h
    | wantRead polls => exact recvWaited_failure hfd ih h
    | wantWrite polls => exact recvWaited_failure hfd ih h
    | failed err =>
      cases h
      exact ⟨_, rfl⟩

/-! ## The transaction and its abstraction -/

/-- What one `Recv` answers, for the transaction of `TitanBench.Ssl`. -/
def answer (c : SslClient) (calls : List ReadCall) : SslRecv :=
  match c.recv calls with
  | some (.ok bytes) => .data bytes
  | some (.error (.io failure)) => .failed failure
  | _ => .failed .waitReadable

/-- What happens during the transaction, seen from above `Send` and `Recv`. -/
def getSys (request : Request) (calls : GetCalls) (c : SslClient) : GetSys where
  sendFailure :=
    match (c.send (buildGetRequest request) calls.writes).2 with
    | some (.error (.io failure)) => some failure
    | _ => none
  recvs := calls.reads.map c.answer
  elapsedNs := calls.elapsedNs

theorem buildGetRequest_ne_nil (request : Request) : buildGetRequest request ≠ [] := by
  unfold buildGetRequest
  simp [crLf]

section Transaction

variable {c : SslClient} {request : Request} {calls : GetCalls}
  {r : SslClient × Result × Response × Bytes}

theorem recvLoopOn_eq (hconn : c.connected = true) (hssl : c.ssl = true) (hfd : c.fd ≠ none)
    {recvs : List (List ReadCall)} {p : ResponseParser} {n : ℕ}
    {out : ResponseParser × ℕ × Option (ResultStatus × String)}
    (h : c.recvLoopOn recvs p n = some out) : recvLoop (recvs.map c.answer) p n = out := by
  induction recvs generalizing p n with
  | nil =>
    unfold recvLoopOn at h
    unfold recvLoop
    split_ifs at h ⊢
    exact Option.some.inj h
  | cons answers recvs ih =>
    have hrecv : c.recv answers = c.recvCalls answers := by
      unfold recv
      rw [if_neg (by simp [hconn, hssl])]
    unfold recvLoopOn at h
    rw [List.map_cons]
    unfold recvLoop
    split_ifs at h ⊢
    · exact Option.some.inj h
    dsimp only at h ⊢
    rcases hanswer : c.recv answers with _ | failure | bytes
    · rw [hanswer] at h
      cases h
    · obtain ⟨io, rfl⟩ := recvCalls_failure hfd (hrecv ▸ hanswer)
      rw [hanswer] at h
      rw [show c.answer answers = .failed io by simp [answer, hanswer]]
      exact Option.some.inj h
    · rw [hanswer] at h
      rw [show c.answer answers = .data bytes by simp [answer, hanswer]]
      cases bytes with
      | nil => exact Option.some.inj h
      | cons b bytes =>
        dsimp only at h ⊢
        rcases hfeed : p.feed (b :: bytes) with ⟨q, ok⟩
        rw [hfeed] at h
        cases ok with
        | false => exact Option.some.inj h
        | true => exact ih h

/-- **The transaction over the calls refines the one over their outcome.** -/
theorem performHttpGetOn_eq (hssl : c.connected = true → c.ssl = true)
    (hfd : c.connected = true → c.fd ≠ none) (h : c.performHttpGetOn request calls = some r) :
    c.performHttpGet request (c.getSys request calls) = r := by
  unfold performHttpGetOn at h
  unfold performHttpGet
  split_ifs at h ⊢ with hoff
  · exact Option.some.inj h
  have hconn : c.connected = true := by simp at hoff; exact hoff.1
  obtain ⟨rest, -, -, hfailure⟩ := send_end hconn (hssl hconn) (hfd hconn)
    (buildGetRequest_ne_nil request) calls.writes
  dsimp only at h ⊢
  unfold getSys
  rcases hsend : (c.send (buildGetRequest request) calls.writes).2 with _ | failure | n
  · rw [hsend] at h
    cases h
  · obtain ⟨-, io, rfl⟩ := hfailure _ hsend
    rw [hsend] at h
    exact Option.some.inj h
  · rw [hsend] at h
    dsimp only at h ⊢
    rcases hloop : c.recvLoopOn calls.reads {} 0 with _ | ⟨q, received, end'⟩
    · rw [hloop] at h
      cases h
    rw [recvLoopOn_eq hconn (hssl hconn) (hfd hconn) hloop]
    rw [hloop] at h
    rcases end' with _ | ⟨status, msg⟩
    · dsimp only at h ⊢
      split_ifs at h ⊢ <;> exact Option.some.inj h
    · exact Option.some.inj h

end Transaction

/-! ## What a transaction is for -/

/-- The bytes of the stream up to its end or its break, and whether it ends. -/
def stream (c : SslClient) (reads : List (List ReadCall)) : Bytes × Bool :=
  ((received (reads.map c.answer)).1.flatten, (received (reads.map c.answer)).2)

/-- What a transaction returns, whose request was written, on a stream that ends (`eof`) or breaks:
the response as soon as the parser has it, and otherwise the reason why there is none. -/
inductive Transacts (request : Request) (c : SslClient) (stream : Bytes) (eof : Bool) :
    SslClient × Result × Response × Bytes → Prop
  | answered {q : ResponseParser} {result : Result} :
      q = (({} : ResponseParser).feed stream).1 → q.state = .done → result.status = .ok →
      Transacts request c stream eof (c.keep request q.response, result, q.response, q.body)
  | rejected {q : ResponseParser} {result : Result} :
      q = (({} : ResponseParser).feed stream).1 → q.state = .error →
      result.status = .parseError → result.error = q.errorMessage →
      Transacts request c stream eof (c, result, {}, [])
  | ended {q : ResponseParser} {result : Result} :
      q = (({} : ResponseParser).feed stream).1 → q.state ≠ .done → q.state ≠ .error →
      eof = true → q.markEof.done = true → result.status = .ok →
      Transacts request c stream eof
        (c.keep request q.markEof.response, result, q.markEof.response, q.markEof.body)
  | incomplete {q : ResponseParser} {result : Result} :
      q = (({} : ResponseParser).feed stream).1 → q.state ≠ .done → q.state ≠ .error →
      eof = true → q.markEof.done = false → result.status = .incomplete →
      result.error = "http response incomplete" → Transacts request c stream eof (c, result, {}, [])
  | broken {q : ResponseParser} {result : Result} :
      q = (({} : ResponseParser).feed stream).1 → q.state ≠ .done → q.state ≠ .error →
      eof = false → result.status = .networkError →
      Transacts request c stream eof (c, result, {}, [])

theorem performHttpGet_transacts (request : Request) {sys : GetSys} {c : SslClient}
    (hconn : c.connected = true) (hssl : c.ssl = true) (hsend : sys.sendFailure = none) :
    Transacts request c (received sys.recvs).1.flatten (received sys.recvs).2
      (c.performHttpGet request sys) := by
  obtain ⟨q, m, hsame, hend⟩ := recvLoop_end sys.recvs (p := {}) (by simp [Ended, done]) (by simp) 0
  have hmark := hsame.markEof
  unfold performHttpGet
  rw [if_neg (by simp [hconn, hssl]), hsend]
  generalize recvLoop sys.recvs {} 0 = out at hend
  generalize sawEof sys.recvs {} = saw at hend
  generalize (received sys.recvs).1.flatten = bytes at hsame hmark ⊢
  generalize (received sys.recvs).2 = eof at hend ⊢
  cases hend with
  | complete hstate hdone =>
    simp only [hdone, Bool.true_eq_false, if_false, hsame.response, hsame.body]
    exact .answered rfl (hsame.state ▸ hstate) rfl
  | rejected hstate => exact .rejected rfl (hsame.state ▸ hstate) rfl hsame.errorMessage
  | ended hopen hok heof =>
    rw [hsame.state] at hopen hok
    dsimp only
    rw [hmark.done, hmark.response, hmark.body]
    cases hdone : (({} : ResponseParser).feed bytes).1.markEof.done with
    | true =>
      simp only [Bool.true_eq_false, if_false]
      exact .ended rfl hopen hok heof hdone rfl
    | false =>
      simp only [if_true]
      exact .incomplete rfl hopen hok heof hdone rfl rfl
  | broken msg hopen hok heof =>
    rw [hsame.state] at hopen hok
    exact .broken rfl hopen hok heof rfl

theorem performHttpGet_bytesSent (request : Request) (sys : GetSys) {c : SslClient}
    (hconn : c.connected = true) (hssl : c.ssl = true) :
    (c.performHttpGet request sys).2.1.bytesSent = (buildGetRequest request).length := by
  unfold performHttpGet
  rw [if_neg (by simp [hconn, hssl])]
  cases sys.sendFailure with
  | some failure => rfl
  | none =>
    rcases recvLoop sys.recvs {} 0 with ⟨q, received, _ | ⟨status, msg⟩⟩
    · dsimp only
      split_ifs <;> rfl
    · rfl

end SslClient

end TitanBench
