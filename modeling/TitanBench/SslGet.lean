import TitanBench.HttpChunking
import TitanBench.Ssl

/-!
# What one transaction returns

`performHttpGet` decides on the answers of the connection one at a time. Its outcome depends only
on the bytes before the stream ends or breaks, and on which of the two it does.

* `received` — these bytes, and whether the stream ends.
* `recvLoop_end` — the receive loop in terms of them.
* `GetSys.ending`, `performHttpGet_got` — the same for the whole transaction.
-/

namespace TitanBench

open ResponseParser

/-- The pieces before the stream ends or breaks, and whether it ends. -/
def received : List SslRecv → List Bytes × Bool
  | .data (b :: bytes) :: rest => ((b :: bytes) :: (received rest).1, (received rest).2)
  | .data [] :: _ => ([], true)
  | .failed _ :: _ => ([], false)
  | [] => ([], false)

theorem received_append {pieces : List Bytes} (hne : ∀ data ∈ pieces, data ≠ [])
    (rest : List SslRecv) :
    received (pieces.map .data ++ rest) = (pieces ++ (received rest).1, (received rest).2) := by
  induction pieces with
  | nil => rfl
  | cons data pieces ih =>
    obtain ⟨b, bytes, rfl⟩ := List.exists_cons_of_ne_nil (hne data List.mem_cons_self)
    rw [List.map_cons, List.cons_append, received, ih fun d hd => hne d (List.mem_cons_of_mem _ hd)]
    rfl

namespace SslClient

/-- Whether the receive loop sees the end of the stream. -/
def sawEof : List SslRecv → ResponseParser → Bool
  | recvs, parser =>
    if parser.done then false
    else
      match recvs with
      | [] => false
      | .failed _ :: _ => false
      | .data [] :: _ => true
      | .data (b :: bytes) :: rest =>
        match parser.feed (b :: bytes) with
        | (_, false) => false
        | (parser, true) => sawEof rest parser

/-- What the receive loop returns when the parser `q` has seen all bytes and the stream then ends
(`eof`) or breaks, and whether it has seen the end. -/
inductive RecvEnd (q : ResponseParser) (received : ℕ) (eof : Bool) :
    Bool → ResponseParser × ℕ × Option (ResultStatus × String) → Prop
  | complete : q.state = .done → q.done = true → RecvEnd q received eof false (q, received, none)
  | rejected : q.state = .error →
      RecvEnd q received eof false (q, received, some (.parseError, q.errorMessage))
  | ended : q.state ≠ .done → q.state ≠ .error → eof = true →
      RecvEnd q received eof true (q.markEof, received, none)
  | broken (msg : String) : q.state ≠ .done → q.state ≠ .error → eof = false →
      RecvEnd q received eof false (q, received, some (.networkError, msg))

theorem recvLoop_done (recvs : List SslRecv) {p : ResponseParser} (h : p.done = true) (n : ℕ) :
    recvLoop recvs p n = (p, n, none) ∧ sawEof recvs p = false := by
  unfold recvLoop sawEof
  simp [h]

/-- One round of the receive loop. -/
theorem recvLoop_cons (recvs : List SslRecv) (b : UInt8) (bytes : Bytes) {p : ResponseParser}
    (h : p.done = false) (n : ℕ) :
    recvLoop (.data (b :: bytes) :: recvs) p n =
      if (p.feed (b :: bytes)).2 then
        recvLoop recvs (p.feed (b :: bytes)).1 (n + (b :: bytes).length)
      else
        ((p.feed (b :: bytes)).1, n + (b :: bytes).length,
          some (.parseError, (p.feed (b :: bytes)).1.errorMessage)) := by
  rw [recvLoop, h]
  simp only [Bool.false_eq_true, if_false]
  obtain ⟨q, ok⟩ := p.feed (b :: bytes)
  cases ok <;> rfl

theorem sawEof_cons (recvs : List SslRecv) (b : UInt8) (bytes : Bytes) {p : ResponseParser}
    (h : p.done = false) :
    sawEof (.data (b :: bytes) :: recvs) p =
      if (p.feed (b :: bytes)).2 then sawEof recvs (p.feed (b :: bytes)).1 else false := by
  rw [sawEof, h]
  simp only [Bool.false_eq_true, if_false]
  obtain ⟨q, ok⟩ := p.feed (b :: bytes)
  cases ok <;> rfl

/-- **The receive loop.** It returns what the parser makes of the bytes before the stream ends or
breaks. -/
theorem recvLoop_end (recvs : List SslRecv) {p : ResponseParser} (hended : p.Ended)
    (hok : p.state ≠ .error) (n : ℕ) :
    ∃ q m, Same q (p.feed (received recvs).1.flatten).1 ∧
      RecvEnd q m (received recvs).2 (sawEof recvs p) (recvLoop recvs p n) := by
  induction recvs generalizing p n with
  | nil =>
    refine ⟨p, n, same_of_settle (by simp [received]), ?_⟩
    by_cases hdone : p.state = .done
    · obtain ⟨hloop, heof⟩ := recvLoop_done [] (hended.mpr hdone) n
      rw [hloop, heof]
      exact .complete hdone (hended.mpr hdone)
    · rw [recvLoop, sawEof, hended.not_done hdone]
      exact .broken _ hdone hok rfl
  | cons answer recvs ih =>
    by_cases hdone : p.state = .done
    · refine ⟨p, n, ?_, ?_⟩
      · rw [feed_of_finished (.inl hdone)]
        exact same_of_settle rfl
      · obtain ⟨hloop, heof⟩ := recvLoop_done (answer :: recvs) (hended.mpr hdone) n
        rw [hloop, heof]
        exact .complete hdone (hended.mpr hdone)
    have hopen := hended.not_done hdone
    cases answer with
    | failed failure =>
      refine ⟨p, n, same_of_settle (by simp [received]), ?_⟩
      rw [recvLoop, sawEof, hopen]
      exact .broken _ hdone hok rfl
    | data bytes =>
      cases bytes with
      | nil =>
        refine ⟨p, n, same_of_settle (by simp [received]), ?_⟩
        rw [recvLoop, sawEof, hopen]
        exact .ended hdone hok rfl
      | cons b bytes =>
        have hfeed : Same ((p.feed (b :: bytes)).1.feed (received recvs).1.flatten).1
            (p.feed (received (.data (b :: bytes) :: recvs)).1.flatten).1 :=
          same_of_settle (feed_feed _ _ _)
        rw [recvLoop_cons _ b bytes hopen, sawEof_cons _ b bytes hopen]
        by_cases herr : (p.feed (b :: bytes)).1.state = .error
        · rw [if_neg (by simp [feed_snd, herr]), if_neg (by simp [feed_snd, herr])]
          rw [feed_of_finished (.inr herr)] at hfeed
          exact ⟨_, _, hfeed, .rejected herr⟩
        · rw [if_pos (by simp [feed_snd, herr]), if_pos (by simp [feed_snd, herr])]
          obtain ⟨q, m, hq, hend⟩ := ih (feed_ended hended (b :: bytes)) herr
            (n + (b :: bytes).length)
          exact ⟨q, m, hq.trans hfeed, hend⟩

/-! ## The transaction -/

/-- How a transaction ends. -/
inductive GetEnd
  /-- The response was complete before the stream ended. -/
  | answered (response : Response)
  /-- The end of the stream completed the response. -/
  | closed (response : Response)
  | failed (status : ResultStatus)

end SslClient

open SslClient

/-- How the answers let a transaction end. -/
def GetSys.ending (sys : GetSys) : GetEnd :=
  let q := (({} : ResponseParser).feed (received sys.recvs).1.flatten).1
  if sys.sendFailure ≠ none then .failed .networkError
  else if q.state = .done then .answered q.response
  else if q.state = .error then .failed .parseError
  else if (received sys.recvs).2 = false then .failed .networkError
  else if q.markEof.done then .closed q.markEof.response
  else .failed .incomplete

/-- Whether the transaction sees the end of the stream. -/
def GetSys.sawEof (sys : GetSys) : Bool :=
  sys.sendFailure.isNone && SslClient.sawEof sys.recvs {}

namespace SslClient

/-- The client after a response that says `r` about the connection. -/
def keep (request : Request) (r : Response) (c : SslClient) : SslClient :=
  if request.keepAlive && r.keepAlive && c.keepAlive then c else c.close

/-- What a transaction that ends in some way returns, and whether it sees the end of the stream. -/
inductive Got (request : Request) (c : SslClient) :
    GetEnd → Bool → SslClient × Result × Response × Bytes → Prop
  | answered {r : Response} {result : Result} {body : Bytes} : result.status = .ok →
      Got request c (.answered r) false (c.keep request r, result, r, body)
  | closed {r : Response} {result : Result} {body : Bytes} : result.status = .ok →
      Got request c (.closed r) true (c.keep request r, result, r, body)
  | failed {status : ResultStatus} {eof : Bool} {result : Result} : result.status = status →
      status ≠ .ok → Got request c (.failed status) eof (c, result, {}, [])

/-- **A transaction.** -/
theorem performHttpGet_got (request : Request) (sys : GetSys) {c : SslClient}
    (hconn : c.connected = true) (hssl : c.ssl = true) :
    Got request c sys.ending sys.sawEof (c.performHttpGet request sys) := by
  obtain ⟨q, m, hsame, hend⟩ := recvLoop_end sys.recvs (p := {}) (by simp [Ended, done]) (by simp) 0
  have hmark := hsame.markEof
  have hending : sys.ending =
      if sys.sendFailure ≠ none then .failed .networkError
      else if q.state = .done then .answered q.response
      else if q.state = .error then .failed .parseError
      else if (received sys.recvs).2 = false then .failed .networkError
      else if q.markEof.done then .closed q.markEof.response
      else .failed .incomplete := by
    unfold GetSys.ending
    rw [hsame.state, hsame.response, hmark.done, hmark.response]
  rw [hending]
  unfold performHttpGet GetSys.sawEof
  rw [if_neg (show ¬ (c.connected = false ∨ c.ssl = false) by simp [hconn, hssl])]
  cases hsend : sys.sendFailure with
  | some failure =>
    rw [if_pos (by simp)]
    exact .failed rfl (by decide)
  | none =>
    generalize recvLoop sys.recvs {} 0 = r at hend
    rw [if_neg (by simp), Option.isNone_none, Bool.true_and]
    generalize sawEof sys.recvs {} = eof at hend
    cases hend with
    | complete hstate hdone =>
      rw [if_pos hstate]
      simp only [hdone, Bool.true_eq_false, if_false]
      exact .answered rfl
    | rejected hstate =>
      rw [if_neg (by simp [hstate]), if_pos hstate]
      exact .failed rfl (by decide)
    | ended hopen hok heof =>
      rw [if_neg hopen, if_neg hok, if_neg (by simp [heof])]
      cases hdone : q.markEof.done with
      | true =>
        simp only [hdone, Bool.true_eq_false, if_false, if_true]
        exact .closed rfl
      | false =>
        simp only [hdone, Bool.false_eq_true, if_false, if_true]
        exact .failed rfl (by decide)
    | broken msg hopen hok heof =>
      rw [if_neg hopen, if_neg hok, if_pos heof]
      exact .failed rfl (by decide)

end SslClient

end TitanBench
