import TitanBench.HttpChunking
import TitanBench.Lib.Mealy

/-!
# What the response parser keeps

A caller feeds chunks, marks the end of the connection and resets the parser, in any order.

**The states** (`Valid`). What the fields say is tied to the state: the two flags, the error text,
the body against the content length, and the bytes that are pending.

**Two errors are never set.** The header loop looks for a line end before the end of the head,
where the empty line begins with one, so it never misses it. The body is filled from an empty one,
never beyond the content length.

Main result: `parser_invariant`.
-/

namespace TitanBench

open Search

/-- A call on a parser. -/
inductive ParserCall
  | feed (data : Bytes)
  | markEof
  | reset

namespace ResponseParser

def call (p : ResponseParser) : ParserCall → ResponseParser
  | .feed data => (p.feed data).1
  | .markEof => p.markEof
  | .reset => p.reset

/-- How the fields of a parser belong together between two calls. -/
structure Valid (p : ResponseParser) : Prop where
  done : p.done = true ↔ p.state = .done
  errorMessage : p.errorMessage ≠ "" ↔ p.state = .error
  headerLine : p.errorMessage ≠ "invalid header line"
  bodyLarger : p.errorMessage ≠ "body larger than content-length"
  /-- Before the end of the head, and after an error, there is no head and no body. -/
  noBody : p.state ≠ .body → p.state ≠ .done → p.response.headerDone = false ∧ p.body = []
  complete : p.state = .done → p.body.length = p.response.contentLength
  inBody : p.state = .body → p.pending = [] ∧
    (p.response.hasContentLength = true → p.body.length < p.response.contentLength)

/-- A parser that still waits for the end of its head. -/
structure Waiting (p : ResponseParser) : Prop where
  done : p.done = false
  errorMessage : p.errorMessage = ""
  headerDone : p.response.headerDone = false
  body : p.body = []

/-- A parser whose body does not exceed the content length. -/
structure Filling (p : ResponseParser) : Prop where
  state : p.state = .body
  done : p.done = false
  errorMessage : p.errorMessage = ""
  fits : p.response.hasContentLength = true → p.body.length ≤ p.response.contentLength

variable {p : ResponseParser}

theorem valid_fresh : Valid {} := by
  constructor <;> simp [done]

theorem Waiting.valid (h : p.Waiting) (hs : p.state = .statusLine ∨ p.state = .headers) :
    p.Valid := by
  constructor
  · rcases hs with hs | hs <;> simp [h.done, hs]
  · rcases hs with hs | hs <;> simp [h.errorMessage, hs]
  · simp [h.errorMessage]
  · simp [h.errorMessage]
  · intro _ _
    exact ⟨h.headerDone, h.body⟩
  · rcases hs with hs | hs <;> simp [hs]
  · rcases hs with hs | hs <;> simp [hs]

theorem Valid.waiting (h : p.Valid) (hs : p.state = .statusLine ∨ p.state = .headers) :
    p.Waiting := by
  have hne : p.state ≠ .done ∧ p.state ≠ .error ∧ p.state ≠ .body := by
    rcases hs with hs | hs <;> simp [hs]
  obtain ⟨hhead, hbody⟩ := h.noBody hne.2.2 hne.1
  refine ⟨?_, ?_, hhead, hbody⟩
  · exact Bool.eq_false_iff.mpr fun hd => hne.1 (h.done.mp hd)
  · exact not_not.mp fun he => hne.2.1 (h.errorMessage.mp he)

theorem Valid.filling (h : p.Valid) (hs : p.state = .body) : p.Filling := by
  refine ⟨hs, ?_, ?_, fun hlen => ((h.inBody hs).2 hlen).le⟩
  · exact Bool.eq_false_iff.mpr fun hd => by simp [h.done.mp hd] at hs
  · exact not_not.mp fun he => by simp [h.errorMessage.mp he] at hs

/-- An error in the head. -/
theorem Waiting.setError (h : p.Waiting) {msg : String} (hmsg : msg ≠ "")
    (hline : msg ≠ "invalid header line") (hlarge : msg ≠ "body larger than content-length") :
    (p.setError msg).Valid := by
  have hd : p.response.messageComplete = false := h.done
  constructor
  · simp [ResponseParser.setError, ResponseParser.done, hd]
  · simpa [ResponseParser.setError] using hmsg
  · exact hline
  · exact hlarge
  · intro _ _
    exact ⟨h.headerDone, h.body⟩
  · simp [ResponseParser.setError]
  · simp [ResponseParser.setError]

/-! ## The body -/

theorem Filling.waitBody (h : p.Filling)
    (hlen : p.response.hasContentLength = true →
      p.body.length + p.pending.length < p.response.contentLength) : p.waitBody.Valid := by
  have hd : p.response.messageComplete = false := h.done
  constructor
  · simp [ResponseParser.waitBody, ResponseParser.done, hd, h.state]
  · simp [ResponseParser.waitBody, h.errorMessage, h.state]
  · simp [ResponseParser.waitBody, h.errorMessage]
  · simp [ResponseParser.waitBody, h.errorMessage]
  · intro hs
    exact absurd h.state hs
  · simp [ResponseParser.waitBody, h.state]
  · intro _
    refine ⟨rfl, fun hhas => ?_⟩
    rw [ResponseParser.waitBody, List.length_append]
    exact hlen hhas

theorem Filling.fillBody (h : p.Filling) (hle : p.body.length ≤ p.response.contentLength)
    (hlen : p.response.contentLength ≤ p.body.length + p.pending.length) : p.fillBody.Valid := by
  constructor
  · simp [ResponseParser.fillBody, ResponseParser.done]
  · simp [ResponseParser.fillBody, h.errorMessage]
  · simp [ResponseParser.fillBody, h.errorMessage]
  · simp [ResponseParser.fillBody, h.errorMessage]
  · intro _ hs
    exact absurd rfl hs
  · intro _
    simp only [ResponseParser.fillBody, List.length_append, List.length_take]
    omega
  · simp [ResponseParser.fillBody]

/-- The body never gets larger than the content length. -/
theorem Filling.parseBody (h : p.Filling) : p.parseBody.1.Valid := by
  rw [parseBody_eq]
  by_cases hwait : p.response.hasContentLength = false ∨
      p.body.length + p.pending.length < p.response.contentLength
  · rw [if_pos hwait]
    apply h.waitBody
    intro hhas
    rcases hwait with hwait | hwait
    · rw [hhas] at hwait
      cases hwait
    · exact hwait
  · rw [not_or, Bool.not_eq_false, not_lt] at hwait
    have hle := h.fits hwait.1
    rw [if_neg (by simp [hwait.1, not_lt.mpr hwait.2]), if_pos hle]
    exact h.fillBody hle hwait.2

/-! ## The head -/

/-- The errors of a header line. -/
theorem parseHeaderLine_error {line : Bytes} {r : Response} {msg : String}
    (h : parseHeaderLine line r = .error msg) :
    msg = "malformed header" ∨ msg = "invalid content-length" := by
  unfold parseHeaderLine at h
  split at h
  · cases h
    exact .inl rfl
  · split_ifs at h
    · split at h <;> cases h
      exact .inr rfl

/-- A line end is found before the end of the head, so only the lines themselves are wrong. -/
theorem headerLoop_error {s : Bytes} {pos : ℕ} (hpos : crLf <+: s.drop pos) (hlen : pos ≤ s.length)
    {fuel lineBegin : ℕ} {r : Response} {msg : String}
    (h : (headerLoop s pos fuel lineBegin r).2 = some msg) :
    msg = "malformed header" ∨ msg = "invalid content-length" := by
  induction fuel generalizing lineBegin r with
  | zero => cases h
  | succ fuel ih =>
    rw [headerLoop] at h
    by_cases hlt : lineBegin < pos
    · obtain ⟨lineEnd, hfind, hle⟩ := findFrom_of_start hlt.le hlen hpos
      rw [if_pos hlt, hfind] at h
      simp only [if_neg (not_lt.mpr hle)] at h
      cases hline : parseHeaderLine ((s.drop lineBegin).take (lineEnd - lineBegin)) r with
      | error msg' =>
        rw [hline] at h
        cases h
        exact parseHeaderLine_error hline
      | ok r' =>
        rw [hline] at h
        exact ih h
    · rw [if_neg hlt] at h
      cases h

theorem Waiting.parseHeaders (h : p.Waiting) (hs : p.state = .headers) :
    p.parseHeaders.1.Valid := by
  unfold ResponseParser.parseHeaders
  cases hfind : find crLfCrLf p.pending with
  | none => exact h.valid (.inr hs)
  | some pos =>
    have hcr : crLf <+: p.pending.drop pos :=
      (List.prefix_append crLf crLf).trans (find_eq_some_iff.1 hfind).2.1
    have herror := @headerLoop_error p.pending pos hcr (find_eq_some_iff.1 hfind).1 pos 0 p.response
    have hflags := headerLoop_flags p.pending pos pos 0 p.response
    dsimp only
    generalize headerLoop p.pending pos pos 0 p.response = res at herror hflags
    obtain ⟨r, err⟩ := res
    obtain ⟨hhead, hdone⟩ := Prod.mk.inj hflags
    have hwaiting : Waiting { p with response := r } :=
      ⟨hdone.trans h.done, h.errorMessage, hhead.trans h.headerDone, h.body⟩
    cases err with
    | some msg =>
      dsimp only
      rcases herror rfl with rfl | rfl <;>
        exact hwaiting.setError (by decide) (by decide) (by decide)
    | none =>
      refine Filling.parseBody ⟨rfl, hwaiting.done, h.errorMessage, fun _ => ?_⟩
      simp [h.body]

theorem Waiting.feedHeaders (h : p.Waiting) (hs : p.state = .headers) : p.feedHeaders.1.Valid := by
  have hparsed := h.parseHeaders hs
  unfold ResponseParser.feedHeaders
  dsimp only
  by_cases hok : p.parseHeaders.2 = true
  · rw [if_neg (not_not.mpr hok)]
    by_cases hbody : p.parseHeaders.1.state = .body
    · rw [if_neg (not_not.mpr hbody)]
      exact (hparsed.filling hbody).parseBody
    · rw [if_pos hbody]
      exact hparsed
  · rw [if_pos hok]
    exact hparsed

/-- The status line is not there yet, wrong, or read. -/
theorem Waiting.parseStatusLine (h : p.Waiting) (hs : p.state = .statusLine) :
    p.parseStatusLine.1.Valid ∧
      (p.parseStatusLine.1.state = .headers → p.parseStatusLine.1.Waiting) := by
  have hwrong : ∀ msg, msg ≠ "" → msg ≠ "invalid header line" →
      msg ≠ "body larger than content-length" →
      (p.setError msg).Valid ∧ ((p.setError msg).state = .headers → (p.setError msg).Waiting) :=
    fun msg hmsg hline hlarge => ⟨h.setError hmsg hline hlarge, by simp⟩
  unfold ResponseParser.parseStatusLine
  cases find crLf p.pending with
  | none => exact ⟨h.valid (.inl hs), fun _ => h⟩
  | some pos =>
    dsimp only
    split
    · exact hwrong _ (by decide) (by decide) (by decide)
    · split
      · exact hwrong _ (by decide) (by decide) (by decide)
      · split
        · exact hwrong _ (by decide) (by decide) (by decide)
        · split
          · have hnext : ∀ code rest, Waiting { p with
                response := { p.response with statusCode := code }
                pending := rest
                state := .headers } :=
              fun _ _ => ⟨h.done, h.errorMessage, h.headerDone, h.body⟩
            exact ⟨(hnext _ _).valid (.inr rfl), fun _ => hnext _ _⟩
          · exact hwrong _ (by decide) (by decide) (by decide)

theorem Waiting.feedStatusLine (h : p.Waiting) (hs : p.state = .statusLine) :
    p.feedStatusLine.1.Valid := by
  obtain ⟨hvalid, hwaiting⟩ := h.parseStatusLine hs
  unfold ResponseParser.feedStatusLine
  dsimp only
  by_cases hok : p.parseStatusLine.2 = true
  · rw [if_neg (not_not.mpr hok)]
    by_cases hheaders : p.parseStatusLine.1.state = .headers
    · rw [if_neg (not_not.mpr hheaders)]
      exact (hwaiting hheaders).feedHeaders hheaders
    · rw [if_pos hheaders]
      exact hvalid
  · rw [if_pos hok]
    exact hvalid

/-! ## Every call -/

theorem Waiting.more (h : p.Waiting) (t : Bytes) : (p.more t).Waiting :=
  ⟨h.done, h.errorMessage, h.headerDone, h.body⟩

theorem Filling.more (h : p.Filling) (t : Bytes) : (p.more t).Filling :=
  ⟨h.state, h.done, h.errorMessage, h.fits⟩

theorem Valid.feed (h : p.Valid) (data : Bytes) : (p.feed data).1.Valid := by
  rcases eq_or_ne data [] with rfl | hne
  · rwa [feed_nil_fst]
  cases hs : p.state with
  | statusLine =>
    rw [feed_statusLine hs hne]
    exact ((h.waiting (.inl hs)).more data).feedStatusLine hs
  | headers =>
    rw [feed_headers hs hne]
    exact ((h.waiting (.inr hs)).more data).feedHeaders hs
  | body =>
    rw [feed_body hs hne]
    exact ((h.filling hs).more data).parseBody
  | done => rwa [feed_of_finished (.inl hs)]
  | error => rwa [feed_of_finished (.inr hs)]

/-- `MarkEof` acts on a body of unknown length only. -/
theorem markEof_of_not (h : ¬ (p.state = .body ∧ p.response.hasContentLength = false)) :
    p.markEof = p := by
  rw [ResponseParser.markEof, if_neg]
  simpa using h

theorem Valid.markEof (h : p.Valid) : p.markEof.Valid := by
  by_cases hbody : p.state = .body ∧ p.response.hasContentLength = false
  · have hfilling := h.filling hbody.1
    rw [ResponseParser.markEof, if_pos (by simpa using hbody)]
    constructor
    · simp [ResponseParser.done]
    · simp [hfilling.errorMessage]
    · simp [hfilling.errorMessage]
    · simp [hfilling.errorMessage]
    · intro _ hs
      exact absurd rfl hs
    · intro _
      rfl
    · simp
  · rwa [markEof_of_not hbody]

theorem Valid.call (h : p.Valid) (c : ParserCall) : (p.call c).Valid := by
  cases c with
  | feed data => exact h.feed data
  | markEof => exact h.markEof
  | reset => exact valid_fresh

theorem valid_run (calls : List ParserCall) : (Mealy.run call {} calls).Valid :=
  @Mealy.run_invariant _ _ call Valid (fun _ => True) (fun _ c _ h => h.call c) {} valid_fresh
    calls fun _ _ => trivial

/-- **The fields of the parser belong together after any calls.** The flag, the error text, the
body and the pending bytes are as the state says, two of the errors are never set, a chunk is
refused exactly when it leaves the parser in its error state, and the end of the connection counts
only for a body of unknown length. -/
theorem parser_invariant (calls : List ParserCall) :
    (Mealy.run call {} calls).Valid ∧
    (∀ data, ((Mealy.run call {} calls).feed data).2 = true ↔
      ((Mealy.run call {} calls).feed data).1.state ≠ .error) ∧
    (¬ ((Mealy.run call {} calls).state = .body ∧
        (Mealy.run call {} calls).response.hasContentLength = false) →
      (Mealy.run call {} calls).markEof = Mealy.run call {} calls) := by
  refine ⟨valid_run calls, fun data => ?_, markEof_of_not⟩
  rw [feed_snd, decide_eq_true_eq]

end ResponseParser

end TitanBench
