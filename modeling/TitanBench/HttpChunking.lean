import Mathlib.Data.List.Basic
import TitanBench.Http

/-!
# The response parser does not see the cut

`feed` may be handed the response in any pieces. `settle` forgets the bytes a finished parser
will never look at; up to that, feeding two chunks is feeding their concatenation
(`feed_feed`), so the parser is a function of the bytes fed so far (`feedAll_flatten`).

Each parse function either waits, leaving the parser as it is, or decides on a part of
`pending` that later bytes cannot change. `more` appends later bytes; the lemmas `_more` say
that it commutes with a decision.
-/

namespace TitanBench

open Search

namespace ResponseParser

/-- Drop the bytes left over once the message is complete or wrong. -/
def settle (p : ResponseParser) : ResponseParser :=
  if p.state = .done ∨ p.state = .error then { p with pending := [] } else p

/-- Bytes that arrive behind what is pending. -/
def more (p : ResponseParser) (t : Bytes) : ResponseParser := { p with pending := p.pending ++ t }

/-- Feed chunks in order; the flag is the last return value. -/
def feedAll (p : ResponseParser) (cs : List Bytes) : ResponseParser × Bool :=
  cs.foldl (fun r c => r.1.feed c) (p, true)

@[simp] theorem more_state (p : ResponseParser) (t : Bytes) : (p.more t).state = p.state := rfl

@[simp] theorem more_pending (p : ResponseParser) (t : Bytes) :
    (p.more t).pending = p.pending ++ t := rfl

@[simp] theorem more_response (p : ResponseParser) (t : Bytes) :
    (p.more t).response = p.response := rfl

@[simp] theorem more_body (p : ResponseParser) (t : Bytes) : (p.more t).body = p.body := rfl

@[simp] theorem setError_state (p : ResponseParser) (msg : String) :
    (p.setError msg).state = .error := rfl

@[simp] theorem more_nil (p : ResponseParser) : p.more [] = p := by simp [more]

theorem setError_more (p : ResponseParser) (msg : String) (t : Bytes) :
    (p.more t).setError msg = (p.setError msg).more t := rfl

@[simp] theorem settle_state (p : ResponseParser) : p.settle.state = p.state := by
  unfold settle
  split <;> rfl

/-- Later bytes do not show in a finished parser. -/
theorem settle_more {p : ResponseParser} (h : p.state = .done ∨ p.state = .error) (t : Bytes) :
    (p.more t).settle = p.settle := by
  have h' : (p.more t).state = .done ∨ (p.more t).state = .error := h
  rw [settle, settle, if_pos h, if_pos h']
  rfl

/-! ## One chunk -/

theorem feed_of_finished {p : ResponseParser} (h : p.state = .done ∨ p.state = .error)
    (t : Bytes) : (p.feed t).1 = p := by
  rw [feed, if_pos h.symm]

@[simp] theorem feed_nil_fst (p : ResponseParser) : (p.feed []).1 = p := by
  unfold feed
  split <;> rfl

theorem feed_statusLine {p : ResponseParser} (h : p.state = .statusLine) {t : Bytes}
    (ht : t ≠ []) : p.feed t = (p.more t).feedStatusLine := by
  simp [feed, more, h, ht]

theorem feed_headers {p : ResponseParser} (h : p.state = .headers) {t : Bytes} (ht : t ≠ []) :
    p.feed t = (p.more t).feedHeaders := by
  simp [feed, more, h, ht]

theorem feed_body {p : ResponseParser} (h : p.state = .body) {t : Bytes} (ht : t ≠ []) :
    p.feed t = (p.more t).parseBody := by
  simp [feed, more, h, ht]

/-! ## The body -/

/-- While the bytes do not fill the body, all of them go into it. -/
def waitBody (p : ResponseParser) : ResponseParser :=
  { p with body := p.body ++ p.pending, pending := [] }

/-- The bytes that fill the body complete the message. -/
def fillBody (p : ResponseParser) : ResponseParser :=
  { p with
    body := p.body ++ p.pending.take (p.response.contentLength - p.body.length)
    pending := p.pending.drop (p.response.contentLength - p.body.length)
    response := { p.response with messageComplete := true }
    state := .done }

/-- `parseBody` in one formula. -/
theorem parseBody_eq (p : ResponseParser) :
    p.parseBody =
      if p.response.hasContentLength = false ∨
          p.body.length + p.pending.length < p.response.contentLength then (p.waitBody, true)
      else if p.body.length ≤ p.response.contentLength then (p.fillBody, true)
      else (p.setError "body larger than content-length", false) := by
  unfold parseBody waitBody fillBody
  cases hcl : p.response.hasContentLength with
  | false => simp
  | true =>
    simp only [not_true_eq_false, if_false, Bool.true_eq_false, false_or]
    by_cases hlt : p.body.length + p.pending.length < p.response.contentLength
    · have hmin : min (p.response.contentLength - p.body.length) p.pending.length =
          p.pending.length := by omega
      simp only [hmin, if_pos (show p.body.length < p.response.contentLength by omega),
        List.take_length, List.drop_length, List.length_append, if_pos hlt]
      rw [if_neg (by omega), if_neg (by omega)]
    · rw [if_neg hlt]
      by_cases hle : p.body.length ≤ p.response.contentLength
      · have hmin : min (p.response.contentLength - p.body.length) p.pending.length =
            p.response.contentLength - p.body.length := by omega
        rw [if_pos hle]
        rcases Nat.lt_or_eq_of_le hle with hb | hb
        · simp only [hmin, if_pos hb, List.length_append, List.length_take]
          rw [if_pos (by omega)]
        · simp [hb, hcl]
      · simp only [if_neg (show ¬ p.body.length < p.response.contentLength by omega),
          if_neg (show ¬ p.body.length = p.response.contentLength by omega), if_neg hle,
          if_pos (show p.body.length > p.response.contentLength by omega)]

/-- Taking the bytes in now or with the next chunk is the same. -/
theorem parseBody_waitBody_more {p : ResponseParser}
    (h : p.response.hasContentLength = false ∨
      p.body.length + p.pending.length < p.response.contentLength) (t : Bytes) :
    (p.waitBody.more t).parseBody = (p.more t).parseBody := by
  have hwait : (p.waitBody.more t).waitBody = (p.more t).waitBody := by simp [waitBody, more]
  rw [parseBody_eq, parseBody_eq, hwait]
  rcases h with h | h
  · simp [waitBody, h]
  · have hfill : (p.waitBody.more t).fillBody = (p.more t).fillBody := by
      have hsub : p.response.contentLength - (p.body.length + p.pending.length) =
          p.response.contentLength - p.body.length - p.pending.length := by omega
      simp [fillBody, waitBody, more, List.take_append, List.drop_append, hsub,
        List.take_of_length_le (show p.pending.length ≤
          p.response.contentLength - p.body.length by omega),
        List.drop_of_length_le (show p.pending.length ≤
          p.response.contentLength - p.body.length by omega)]
    rw [hfill]
    have hb : p.body.length ≤ p.response.contentLength := by omega
    have hbp : p.body.length + p.pending.length ≤ p.response.contentLength := by omega
    simp [waitBody, hb, hbp, Nat.add_assoc]

theorem parseBody_more {p : ResponseParser} (h : p.state = .body) (t : Bytes) :
    (p.parseBody.1.feed t).1.settle = (p.more t).parseBody.1.settle := by
  rcases eq_or_ne t [] with rfl | ht
  · simp [more]
  rw [parseBody_eq p]
  split_ifs with hwait hle
  · -- All bytes were taken in; the next chunk goes on from there.
    rw [feed_body (show p.waitBody.state = .body from h) ht, parseBody_waitBody_more hwait]
  · push Not at hwait
    have hmore : (p.more t).parseBody = ((p.more t).fillBody, true) := by
      rw [parseBody_eq, if_neg, if_pos (by simpa using hle)]
      simpa [hwait.1] using by omega
    have htake : (p.more t).fillBody = p.fillBody.more t := by
      have hlen : p.response.contentLength - p.body.length ≤ p.pending.length := by omega
      simp [fillBody, more, List.take_append_of_le_length hlen, List.drop_append_of_le_length hlen]
    rw [feed_of_finished (Or.inl rfl), hmore, htake, settle_more (Or.inl rfl)]
  · push Not at hwait
    have hmore : (p.more t).parseBody =
        ((p.more t).setError "body larger than content-length", false) := by
      rw [parseBody_eq, if_neg, if_neg (by simpa using hle)]
      simpa [hwait.1] using by omega
    rw [feed_of_finished (Or.inr rfl), hmore, setError_more, settle_more (Or.inr rfl)]

/-- Nothing is left for a second `parseBody`. -/
theorem parseBody_twice {p : ResponseParser} (h : p.parseBody.1.state = .body) :
    p.parseBody.1.parseBody = p.parseBody := by
  have hwait : p.response.hasContentLength = false ∨
      p.body.length + p.pending.length < p.response.contentLength := by
    by_contra hw
    rw [parseBody_eq, if_neg hw] at h
    split at h <;> simp [fillBody] at h
  have htwice := parseBody_waitBody_more hwait []
  rw [more_nil, more_nil] at htwice
  rw [parseBody_eq p, if_pos hwait, htwice, parseBody_eq p, if_pos hwait]

/-! ## The head -/

/-- A line found before the end of the head does not move when bytes arrive. -/
theorem headerLoop_append {s : Bytes} {pos : ℕ} (hpos : crLf <+: s.drop pos)
    (hlen : pos ≤ s.length) (t : Bytes) (fuel lineBegin : ℕ) (r : Response) :
    headerLoop (s ++ t) pos fuel lineBegin r = headerLoop s pos fuel lineBegin r := by
  induction fuel generalizing lineBegin r with
  | zero => rfl
  | succ fuel ih =>
    rw [headerLoop, headerLoop]
    split_ifs with hlt
    · obtain ⟨lineEnd, hfind, hle⟩ := findFrom_of_start (le_of_lt hlt) hlen hpos
      rw [hfind, findFrom_append hfind (by omega)]
      simp only [if_neg (show ¬ lineEnd > pos by omega)]
      have hline : ((s ++ t).drop lineBegin).take (lineEnd - lineBegin) =
          (s.drop lineBegin).take (lineEnd - lineBegin) := by
        rw [List.drop_append_of_le_length (by omega), List.take_append_of_le_length]
        rw [List.length_drop]
        omega
      rw [hline]
      cases parseHeaderLine ((s.drop lineBegin).take (lineEnd - lineBegin)) r with
      | error msg => rfl
      | ok r' => exact ih _ _
    · rfl

/-- What `parseHeaders` does with a complete head: it fails, or leaves the rest to the body.
Bytes behind the head do not matter. -/
theorem parseHeaders_cases {p : ResponseParser} {pos : ℕ}
    (h : find crLfCrLf p.pending = some pos) :
    (∃ (q : ResponseParser) (msg : String),
      ∀ t, (p.more t).parseHeaders = ((q.setError msg).more t, false)) ∨
    ∃ q : ResponseParser, q.state = .body ∧
      ∀ t, (p.more t).parseHeaders = (q.more t).parseBody := by
  have hb : pos + 4 ≤ p.pending.length := find_bound h
  have hcr : crLf <+: p.pending.drop pos :=
    (List.prefix_append crLf crLf).trans (find_eq_some_iff.1 h).2.1
  have hfind (t : Bytes) : find crLfCrLf (p.more t).pending = some pos := find_append h t
  have hloop (t : Bytes) : headerLoop (p.more t).pending pos pos 0 (p.more t).response =
      headerLoop p.pending pos pos 0 p.response :=
    headerLoop_append hcr (by omega) t pos 0 p.response
  cases hL : headerLoop p.pending pos pos 0 p.response with
  | mk r err =>
    cases err with
    | some msg =>
      refine Or.inl ⟨{ p with response := r }, msg, fun t => ?_⟩
      simp only [parseHeaders, hfind, hloop, hL]
      rfl
    | none =>
      refine Or.inr ⟨{ p with
        response := { r with headerDone := true }
        pending := p.pending.drop (pos + 4)
        state := .body }, rfl, fun t => ?_⟩
      simp only [parseHeaders, hfind, hloop, hL]
      simp [more, List.drop_append_of_le_length hb]

theorem parseStatusLine_cases {p : ResponseParser} {pos : ℕ}
    (h : find crLf p.pending = some pos) :
    (∃ msg, ∀ t, (p.more t).parseStatusLine = ((p.setError msg).more t, false)) ∨
    ∃ q : ResponseParser, q.state = .headers ∧
      ∀ t, (p.more t).parseStatusLine = (q.more t, true) := by
  have hb : pos + 2 ≤ p.pending.length := find_bound h
  have hfind (t : Bytes) : find crLf (p.more t).pending = some pos := find_append h t
  have hline (t : Bytes) : (p.more t).pending.take pos = p.pending.take pos :=
    List.take_append_of_le_length (by omega)
  by_cases hhttp : (p.pending.take pos).length < 12 ∨ (p.pending.take pos).take 5 ≠ ascii "HTTP/"
  · refine Or.inl ⟨"invalid status line", fun t => ?_⟩
    simp only [parseStatusLine, hfind, hline, if_pos hhttp]
    rfl
  cases hsp : find [space] (p.pending.take pos) with
  | none =>
    refine Or.inl ⟨"invalid status line format", fun t => ?_⟩
    simp only [parseStatusLine, hfind, hline, if_neg hhttp, hsp]
    rfl
  | some firstSpace =>
    by_cases hshort : firstSpace + 4 > (p.pending.take pos).length
    · refine Or.inl ⟨"invalid status line format", fun t => ?_⟩
      simp only [parseStatusLine, hfind, hline, if_neg hhttp, hsp, if_pos hshort]
      rfl
    cases hcode : fromCharsInt (((p.pending.take pos).drop (firstSpace + 1)).take 3) with
    | none =>
      refine Or.inl ⟨"invalid status code", fun t => ?_⟩
      simp only [parseStatusLine, hfind, hline, if_neg hhttp, hsp, if_neg hshort, hcode]
      rfl
    | some cr =>
      obtain ⟨code, rest⟩ := cr
      cases rest with
      | nil =>
        refine Or.inr ⟨{ p with
          response := { p.response with statusCode := code }
          pending := p.pending.drop (pos + 2)
          state := .headers }, rfl, fun t => ?_⟩
        simp only [parseStatusLine, hfind, hline, if_neg hhttp, hsp, if_neg hshort, hcode]
        simp [more, List.drop_append_of_le_length hb]
      | cons b rest =>
        refine Or.inl ⟨"invalid status code", fun t => ?_⟩
        simp only [parseStatusLine, hfind, hline, if_neg hhttp, hsp, if_neg hshort, hcode]
        rfl

/-! ## The loop of `Feed` -/

/-- The parser after `feedHeaders`, once the head is complete, is the one after `parseBody`. -/
theorem feedHeaders_of_parseBody {p q : ResponseParser} (h : p.parseHeaders = q.parseBody) :
    p.feedHeaders.1 = q.parseBody.1 := by
  unfold feedHeaders
  rw [h]
  cases hok : q.parseBody.2 with
  | false => simp [hok]
  | true =>
    by_cases hbody : q.parseBody.1.state = .body
    · simp [hok, hbody, parseBody_twice hbody]
    · simp [hok, hbody]

theorem feedHeaders_more {p : ResponseParser} (h : p.state = .headers) (t : Bytes) :
    (p.feedHeaders.1.feed t).1.settle = (p.more t).feedHeaders.1.settle := by
  rcases eq_or_ne t [] with rfl | ht
  · simp
  cases hfind : find crLfCrLf p.pending with
  | none =>
    have hwait : p.feedHeaders.1 = p := by simp [feedHeaders, parseHeaders, hfind, h]
    rw [hwait, feed_headers h ht]
  | some pos =>
    rcases parseHeaders_cases hfind with ⟨q, msg, herr⟩ | ⟨q, hq, hbody⟩
    · have herr' (t : Bytes) : (p.more t).feedHeaders.1 = (q.setError msg).more t := by
        simp [feedHeaders, herr]
      have h0 := herr' []
      rw [more_nil, more_nil] at h0
      rw [h0, herr', feed_of_finished (Or.inr rfl), settle_more (Or.inr rfl)]
    · have h0 := feedHeaders_of_parseBody (hbody [])
      rw [more_nil, more_nil] at h0
      rw [h0, feedHeaders_of_parseBody (hbody t), parseBody_more hq]

theorem feedStatusLine_more {p : ResponseParser} (h : p.state = .statusLine) (t : Bytes) :
    (p.feedStatusLine.1.feed t).1.settle = (p.more t).feedStatusLine.1.settle := by
  rcases eq_or_ne t [] with rfl | ht
  · simp
  cases hfind : find crLf p.pending with
  | none =>
    have hwait : p.feedStatusLine.1 = p := by simp [feedStatusLine, parseStatusLine, hfind, h]
    rw [hwait, feed_statusLine h ht]
  | some pos =>
    rcases parseStatusLine_cases hfind with ⟨msg, herr⟩ | ⟨q, hq, hnext⟩
    · have herr' (t : Bytes) : (p.more t).feedStatusLine.1 = (p.setError msg).more t := by
        simp [feedStatusLine, herr]
      have h0 := herr' []
      rw [more_nil, more_nil] at h0
      rw [h0, herr', feed_of_finished (Or.inr rfl), settle_more (Or.inr rfl)]
    · have hnext' (t : Bytes) : (p.more t).feedStatusLine = (q.more t).feedHeaders := by
        simp [feedStatusLine, hnext, hq]
      have h0 := hnext' []
      rw [more_nil, more_nil] at h0
      rw [h0, hnext', feedHeaders_more hq]

/-! ## Any cutting -/

/-- **Two chunks are their concatenation.** -/
theorem feed_feed (p : ResponseParser) (s t : Bytes) :
    ((p.feed s).1.feed t).1.settle = (p.feed (s ++ t)).1.settle := by
  rcases eq_or_ne s [] with rfl | hs
  · simp
  have hst : s ++ t ≠ [] := fun h => hs (List.append_eq_nil_iff.1 h).1
  have hmore : (p.more s).more t = p.more (s ++ t) := by simp [more]
  cases hstate : p.state with
  | statusLine =>
    have hs' : (p.more s).state = .statusLine := hstate
    rw [feed_statusLine hstate hs, feed_statusLine hstate hst, feedStatusLine_more hs', hmore]
  | headers =>
    have hs' : (p.more s).state = .headers := hstate
    rw [feed_headers hstate hs, feed_headers hstate hst, feedHeaders_more hs', hmore]
  | body =>
    have hs' : (p.more s).state = .body := hstate
    rw [feed_body hstate hs, feed_body hstate hst, parseBody_more hs', hmore]
  | done =>
    rw [feed_of_finished (Or.inl hstate), feed_of_finished (Or.inl hstate),
      feed_of_finished (Or.inl hstate)]
  | error =>
    rw [feed_of_finished (Or.inr hstate), feed_of_finished (Or.inr hstate),
      feed_of_finished (Or.inr hstate)]

/-- The parser after some chunks is the one after all their bytes at once. -/
theorem feedAll_flatten (p : ResponseParser) (b : Bool) (cs : List Bytes) :
    (cs.foldl (fun r c => r.1.feed c) (p, b)).1.settle = (p.feed cs.flatten).1.settle := by
  induction cs generalizing p b with
  | nil => simp
  | cons c cs ih =>
    rw [List.foldl_cons, List.flatten_cons, ih, feed_feed]

/-! ## The return value -/

theorem parseBody_snd {p : ResponseParser} (h : p.state = .body) :
    p.parseBody.2 = decide (p.parseBody.1.state ≠ .error) := by
  rw [parseBody_eq]
  split_ifs
  · simp [waitBody, h]
  · simp [fillBody]
  · simp

theorem feedHeaders_snd {p : ResponseParser} (h : p.state = .headers) :
    p.feedHeaders.2 = decide (p.feedHeaders.1.state ≠ .error) := by
  cases hfind : find crLfCrLf p.pending with
  | none => simp [feedHeaders, parseHeaders, hfind, h]
  | some pos =>
    rcases parseHeaders_cases hfind with ⟨q, msg, herr⟩ | ⟨q, hq, hbody⟩
    · have h0 := herr []
      rw [more_nil, more_nil] at h0
      simp [feedHeaders, h0]
    · have h0 := hbody []
      rw [more_nil, more_nil] at h0
      have hflag := parseBody_snd hq
      unfold feedHeaders
      rw [h0]
      by_cases hst : q.parseBody.1.state = .body
      · simp [hst, parseBody_twice hst, hflag]
      · cases hok : q.parseBody.2 with
        | false => simp_all
        | true => simp [hok, hst]

theorem feedStatusLine_snd {p : ResponseParser} (h : p.state = .statusLine) :
    p.feedStatusLine.2 = decide (p.feedStatusLine.1.state ≠ .error) := by
  cases hfind : find crLf p.pending with
  | none => simp [feedStatusLine, parseStatusLine, hfind, h]
  | some pos =>
    rcases parseStatusLine_cases hfind with ⟨msg, herr⟩ | ⟨q, hq, hnext⟩
    · have h0 := herr []
      rw [more_nil, more_nil] at h0
      simp [feedStatusLine, h0]
    · have h0 := hnext []
      rw [more_nil, more_nil] at h0
      simp [feedStatusLine, h0, hq, feedHeaders_snd hq]

/-- **A chunk is accepted unless the parser ends in its error state.** -/
theorem feed_snd (p : ResponseParser) (t : Bytes) :
    (p.feed t).2 = decide ((p.feed t).1.state ≠ .error) := by
  rcases eq_or_ne t [] with rfl | ht
  · cases hstate : p.state <;> simp [feed, hstate]
  cases hstate : p.state with
  | statusLine => rw [feed_statusLine hstate ht]; exact feedStatusLine_snd hstate
  | headers => rw [feed_headers hstate ht]; exact feedHeaders_snd hstate
  | body => rw [feed_body hstate ht]; exact parseBody_snd hstate
  | done => simp [feed, hstate]
  | error => simp [feed, hstate]

theorem feedAll_snd {p : ResponseParser} {cs : List Bytes} (h : cs ≠ []) :
    (p.feedAll cs).2 = decide ((p.feedAll cs).1.state ≠ .error) := by
  rcases List.eq_nil_or_concat' cs with rfl | ⟨cs, c, rfl⟩
  · exact absurd rfl h
  · simp only [feedAll, List.foldl_append, List.foldl_cons, List.foldl_nil]
    exact feed_snd _ c

/-! ## The end of the message -/

/-- The message is complete exactly in the state `done`. -/
def Ended (p : ResponseParser) : Prop := p.done = true ↔ p.state = .done

theorem Ended.not_done {p : ResponseParser} (h : p.Ended) (hs : p.state ≠ .done) :
    p.done = false := by
  cases hd : p.done with
  | false => rfl
  | true => exact absurd (h.mp hd) hs

theorem ended_of_not {p : ResponseParser} (hd : p.done = false) (hs : p.state ≠ .done) :
    p.Ended := by
  simp [Ended, hd, hs]

theorem parseHeaderLine_flags {line : Bytes} {r r' : Response}
    (h : parseHeaderLine line r = .ok r') :
    (r'.headerDone, r'.messageComplete) = (r.headerDone, r.messageComplete) := by
  unfold parseHeaderLine at h
  split at h
  · cases h
  · split_ifs at h
    · split at h <;> cases h
      rfl
    all_goals
      cases h
      rfl

/-- What no header line changes, the header loop does not change. -/
theorem headerLoop_keeps {β : Type*} {f : Response → β}
    (hf : ∀ line r r', parseHeaderLine line r = .ok r' → f r' = f r) (pending : Bytes)
    (pos fuel lineBegin : ℕ) (r : Response) :
    f (headerLoop pending pos fuel lineBegin r).1 = f r := by
  induction fuel generalizing lineBegin r with
  | zero => rfl
  | succ fuel ih =>
    unfold headerLoop
    split_ifs
    · cases findFrom crLf pending lineBegin with
      | none => rfl
      | some lineEnd =>
        dsimp only
        split_ifs
        · rfl
        · cases hline : parseHeaderLine ((pending.drop lineBegin).take (lineEnd - lineBegin)) r with
          | error msg => rfl
          | ok r' => exact (ih _ _).trans (hf _ _ _ hline)
    · rfl

theorem headerLoop_flags (pending : Bytes) (pos fuel lineBegin : ℕ) (r : Response) :
    ((headerLoop pending pos fuel lineBegin r).1.headerDone,
        (headerLoop pending pos fuel lineBegin r).1.messageComplete) =
      (r.headerDone, r.messageComplete) :=
  @headerLoop_keeps _ (fun r : Response => (r.headerDone, r.messageComplete))
    (fun _ _ _ => parseHeaderLine_flags) pending pos fuel lineBegin r

theorem parseBody_ended {p : ResponseParser} (hd : p.done = false) (hs : p.state = .body) :
    p.parseBody.1.Ended := by
  rw [parseBody_eq]
  split_ifs
  · exact ended_of_not hd (by simp [waitBody, hs])
  · simp [Ended, fillBody, done]
  · exact ended_of_not hd (by simp)

theorem parseHeaders_ended {p : ResponseParser} (hd : p.done = false) (hs : p.state = .headers) :
    p.parseHeaders.1.Ended := by
  unfold parseHeaders
  cases find crLfCrLf p.pending with
  | none => exact ended_of_not hd (by simp [hs])
  | some pos =>
    have hloop := congrArg Prod.snd (headerLoop_flags p.pending pos pos 0 p.response)
    dsimp only
    generalize headerLoop p.pending pos pos 0 p.response = res at hloop
    obtain ⟨r, err⟩ := res
    have hr : r.messageComplete = false := hloop.trans hd
    cases err with
    | some msg => exact ended_of_not hr (by simp)
    | none => exact parseBody_ended hr rfl

theorem feedHeaders_ended {p : ResponseParser} (hd : p.done = false) (hs : p.state = .headers) :
    p.feedHeaders.1.Ended := by
  have hparsed := parseHeaders_ended hd hs
  unfold feedHeaders
  dsimp only
  by_cases hok : p.parseHeaders.2 = true
  · rw [if_neg (not_not.mpr hok)]
    by_cases hbody : p.parseHeaders.1.state = .body
    · rw [if_neg (not_not.mpr hbody)]
      exact parseBody_ended (hparsed.not_done (by simp [hbody])) hbody
    · rw [if_pos hbody]
      exact hparsed
  · rw [if_pos hok]
    exact hparsed

theorem parseStatusLine_not_done {p : ResponseParser} (hd : p.done = false)
    (hs : p.state = .statusLine) :
    p.parseStatusLine.1.done = false ∧ p.parseStatusLine.1.state ≠ .done := by
  unfold parseStatusLine
  cases find crLf p.pending with
  | none => exact ⟨hd, by simp [hs]⟩
  | some pos =>
    dsimp only
    repeat' split
    all_goals exact ⟨hd, by simp⟩

theorem feedStatusLine_ended {p : ResponseParser} (hd : p.done = false)
    (hs : p.state = .statusLine) : p.feedStatusLine.1.Ended := by
  obtain ⟨hd, hs⟩ := parseStatusLine_not_done hd hs
  unfold feedStatusLine
  dsimp only
  by_cases hok : p.parseStatusLine.2 = true
  · rw [if_neg (not_not.mpr hok)]
    by_cases hheaders : p.parseStatusLine.1.state = .headers
    · rw [if_neg (not_not.mpr hheaders)]
      exact feedHeaders_ended hd hheaders
    · rw [if_pos hheaders]
      exact ended_of_not hd hs
  · rw [if_pos hok]
    exact ended_of_not hd hs

/-- **`Feed` completes the message exactly when it enters `done`.** -/
theorem feed_ended {p : ResponseParser} (h : p.Ended) (t : Bytes) : (p.feed t).1.Ended := by
  rcases eq_or_ne t [] with rfl | ht
  · rwa [feed_nil_fst]
  cases hstate : p.state with
  | statusLine =>
    rw [feed_statusLine hstate ht]
    exact feedStatusLine_ended (h.not_done (by simp [hstate])) hstate
  | headers =>
    rw [feed_headers hstate ht]
    exact feedHeaders_ended (h.not_done (by simp [hstate])) hstate
  | body =>
    rw [feed_body hstate ht]
    exact parseBody_ended (h.not_done (by simp [hstate])) hstate
  | done => rwa [feed_of_finished (.inl hstate)]
  | error => rwa [feed_of_finished (.inr hstate)]

/-! ## Chunking independence -/

/-- `MarkEof` when the bytes ended with the connection. -/
def finish (p : ResponseParser) (eof : Bool) : ResponseParser := if eof then p.markEof else p

theorem markEof_settle (p : ResponseParser) : p.settle.markEof = p.markEof.settle := by
  by_cases h : p.state = .done ∨ p.state = .error
  · have hmark : p.markEof = p := by
      rcases h with h | h <;> simp [markEof, h]
    have hmark' : p.settle.markEof = p.settle := by
      rcases h with h | h <;> simp [markEof, h]
    rw [hmark, hmark']
  · have hsettle : p.settle = p := by rw [settle, if_neg h]
    rw [hsettle]
    unfold markEof
    split
    · simp [settle]
    · exact hsettle.symm

theorem finish_settle (p : ResponseParser) (eof : Bool) :
    (p.finish eof).settle = p.settle.finish eof := by
  cases eof with
  | false => rfl
  | true => exact (markEof_settle p).symm

/-- Two parsers a caller cannot tell apart, now or after any further call. -/
structure Same (p q : ResponseParser) : Prop where
  state : p.state = q.state
  response : p.response = q.response
  body : p.body = q.body
  done : p.done = q.done
  errorMessage : p.errorMessage = q.errorMessage
  pending : p.state ≠ .done → p.state ≠ .error → p.pending = q.pending

theorem Same.trans {p q r : ResponseParser} (h : Same p q) (h' : Same q r) : Same p r := by
  refine ⟨h.state.trans h'.state, h.response.trans h'.response, h.body.trans h'.body,
    h.done.trans h'.done, h.errorMessage.trans h'.errorMessage, fun hd he => ?_⟩
  exact (h.pending hd he).trans (h'.pending (h.state ▸ hd) (h.state ▸ he))

theorem same_of_settle {p q : ResponseParser} (h : p.settle = q.settle) : Same p q := by
  have hstate : p.state = q.state := by simpa using congrArg state h
  have hresp (p : ResponseParser) : p.settle.response = p.response := by
    unfold settle; split <;> rfl
  have hbody (p : ResponseParser) : p.settle.body = p.body := by unfold settle; split <;> rfl
  have hmsg (p : ResponseParser) : p.settle.errorMessage = p.errorMessage := by
    unfold settle; split <;> rfl
  have hr : p.response = q.response := by rw [← hresp p, ← hresp q, h]
  refine ⟨hstate, hr, ?_, ?_, ?_, fun hd he => ?_⟩
  · rw [← hbody p, ← hbody q, h]
  · rw [done, done, hr]
  · rw [← hmsg p, ← hmsg q, h]
  · have hp : p.settle = p := if_neg (by simp [hd, he])
    have hq : q.settle = q := if_neg (by rw [← hstate]; simp [hd, he])
    rw [← hp, ← hq, h]

theorem Same.markEof {p q : ResponseParser} (h : Same p q) : Same p.markEof q.markEof := by
  unfold ResponseParser.markEof
  rw [h.state, h.response]
  by_cases hbody : q.state = .body ∧ ¬ q.response.hasContentLength = true
  · have hpending : p.pending = q.pending :=
      h.pending (by simp [h.state, hbody.1]) (by simp [h.state, hbody.1])
    rw [if_pos hbody, if_pos hbody, h.body, hpending]
    exact ⟨rfl, rfl, rfl, rfl, h.errorMessage, fun hd => absurd rfl hd⟩
  · rw [if_neg hbody, if_neg hbody]
    exact h

/-- **Chunking independence.** However the bytes are cut, with or without the end of the
connection behind them, the reset parser ends up the same and the last call returns the same. -/
theorem feedAll_chunking (p q : ResponseParser) (cs ds : List Bytes) (hcs : cs ≠ [])
    (hds : ds ≠ []) (h : cs.flatten = ds.flatten) :
    (p.reset.feedAll cs).2 = (q.reset.feedAll ds).2 ∧
      ∀ eof, Same ((p.reset.feedAll cs).1.finish eof) ((q.reset.feedAll ds).1.finish eof) := by
  have hsettle : (p.reset.feedAll cs).1.settle = (q.reset.feedAll ds).1.settle := by
    rw [feedAll, feedAll, feedAll_flatten, feedAll_flatten, h]
    rfl
  constructor
  · rw [feedAll_snd hcs, feedAll_snd hds, (same_of_settle hsettle).state]
  · intro eof
    apply same_of_settle
    rw [finish_settle, finish_settle, hsettle]

/-- A response cut inside its status line, its head and its body, against the whole. -/
theorem feedAll_chunking_example :
    [ascii "HTTP/1.1 20", ascii "0 OK\r", ascii "\nA: b\r\n\r\nxy"] ≠ [] ∧
      (({} : ResponseParser).reset.feedAll
          [ascii "HTTP/1.1 20", ascii "0 OK\r", ascii "\nA: b\r\n\r\nxy"]).2 =
        (({} : ResponseParser).reset.feedAll [ascii "HTTP/1.1 200 OK\r\nA: b\r\n\r\nxy"]).2 :=
  ⟨by decide, (feedAll_chunking {} {} _ [_] (by decide) (by decide) (by decide)).1⟩

end ResponseParser

end TitanBench
