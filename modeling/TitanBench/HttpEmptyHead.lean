import TitanBench.HttpFraming

/-!
# A head without header lines

The head is a status line and the empty line. `ParseStatusLine` erases the status line with its
CRLF, and `ParseHeaders` then looks for the four bytes CRLF CRLF, of which the empty line is only
the last two. So the parser overlooks the empty line and looks for the end of the head in the body.

* `EmptyHead` — such a head; `ReadsEmptyHead` — what reading a response with it should give.
* `feed_emptyHead` — what the parser does instead, for every body.
* `emptyHead_never` — no response with such a head is read, in whatever pieces it comes.
-/

namespace TitanBench

open Search

/-- A well-formed response head with no header line. -/
structure EmptyHead extends HeadText where
  version_noSpace : space ∉ version
  digits : isDigit d1 ∧ isDigit d2 ∧ isDigit d3
  long : 12 ≤ toHeadText.statusLine.length
  statusLine_noCrLf : cr ∉ toHeadText.statusLine ∧ lf ∉ toHeadText.statusLine
  lines_nil : lines = []

theorem EmptyHead.bytes_eq (h : EmptyHead) : h.bytes = h.statusLine ++ crLf ++ crLf := by
  rw [HeadText.bytes, h.lines_nil, block_nil, List.append_nil]

namespace ResponseParser

/-- The pieces are accepted, the head is done once the empty line is fed, and at the end of the
connection the body is what was fed behind it. -/
structure ReadsEmptyHead (h : EmptyHead) (body : Bytes) (cs : List Bytes) : Prop where
  accepted : ∀ before c after, cs = before ++ c :: after → ((feedAll {} before).1.feed c).2 = true
  headDone : ∀ before after, cs = before ++ after → h.bytes.length ≤ before.flatten.length →
    (feedAll {} before).1.response.headerDone = true
  done : (feedAll {} cs).1.markEof.done = true
  body : (feedAll {} cs).1.markEof.body = body

/-- The parser behind the status line, the empty line and `body` being pending. -/
def overEmptyLine (h : EmptyHead) (body : Bytes) : ResponseParser where
  state := .headers
  response := { statusCode := h.statusCode }
  pending := crLf ++ body

/-- The empty line counts only together with two bytes of the body. -/
theorem find_emptyLine (body : Bytes) :
    find crLfCrLf (crLf ++ body) =
      if crLf <+: body then some 0 else (find crLfCrLf body).map (· + 2) := by
  by_cases hbody : crLf <+: body
  · rw [if_pos hbody]
    exact find_of_start ((List.prefix_append_right_inj crLf).2 hbody)
  · rw [if_neg hbody]
    refine find_skip fun j hj hp => ?_
    simp only [crLf, List.length_cons, List.length_nil] at hj
    obtain rfl | rfl : j = 0 ∨ j = 1 := by omega
    · exact hbody ((List.prefix_append_right_inj crLf).1 hp)
    · simp [crLf, crLfCrLf, cr, lf] at hp

/-- The empty line is taken for a header line. -/
theorem headerLoop_emptyLine (body : Bytes) (pos : ℕ) (r : Response) :
    headerLoop (crLf ++ body) (pos + 2) (pos + 2) 0 r = (r, some "malformed header") := by
  have hfind : findFrom crLf (crLf ++ body) 0 = some 0 := by
    rw [findFrom, List.drop_zero, find_of_start (List.prefix_append _ _)]
    rfl
  have hline : parseHeaderLine [] r = .error "malformed header" := rfl
  rw [headerLoop, if_pos (Nat.succ_pos _), hfind]
  simp only [if_neg (Nat.not_lt_zero _), Nat.sub_zero, List.take_zero, hline, gt_iff_lt]

/-- **What the parser makes of an empty head.** It takes two bytes of the body for the rest of the
empty line, or it waits for them in vain, or it reports an error. -/
theorem feed_emptyHead (h : EmptyHead) (body : Bytes) :
    (crLf <+: body ∧
      (({} : ResponseParser).feed (h.bytes ++ body)).1.markEof.body = body.drop 2) ∨
    (¬ crLf <+: body ∧ find crLfCrLf body = none ∧
      (({} : ResponseParser).feed (h.bytes ++ body)).1 = overEmptyLine h body) ∨
    (¬ crLf <+: body ∧ find crLfCrLf body ≠ none ∧
      (({} : ResponseParser).feed (h.bytes ++ body)).1 =
        (overEmptyLine h body).setError "malformed header") := by
  have hne : h.bytes ++ body ≠ [] := by simp [h.bytes_eq, crLf]
  have hmore : ({} : ResponseParser).more (h.bytes ++ body) =
      { pending := h.statusLine ++ crLf ++ (crLf ++ body) } := by
    simp [more, h.bytes_eq]
  have hnext : ({ pending := h.statusLine ++ crLf ++ (crLf ++ body) } :
      ResponseParser).feedStatusLine = (overEmptyLine h body).feedHeaders := by
    rw [feedStatusLine,
      parseStatusLine_text h.version_noSpace h.digits h.long h.statusLine_noCrLf.1]
    rfl
  rw [feed_statusLine rfl hne, hmore, hnext]
  have hfind := find_emptyLine body
  by_cases hbody : crLf <+: body
  · rw [if_pos hbody] at hfind
    refine .inl ⟨hbody, ?_⟩
    have hparse : (overEmptyLine h body).parseHeaders =
        parseBody { overEmptyLine h body with
          response := { statusCode := h.statusCode, headerDone := true }
          pending := (crLf ++ body).drop 4
          state := .body } := by
      simp only [parseHeaders, overEmptyLine, hfind]
      rfl
    have hdrop : (crLf ++ body).drop 4 = body.drop 2 := by simp [crLf]
    rw [feedHeaders_of_parseBody hparse, parseBody_eq, if_pos (.inl rfl), hdrop]
    simp [markEof, waitBody, overEmptyLine]
  · rw [if_neg hbody] at hfind
    cases hin : find crLfCrLf body with
    | none =>
      rw [hin] at hfind
      refine .inr (.inl ⟨hbody, rfl, ?_⟩)
      simp [feedHeaders, parseHeaders, overEmptyLine, hfind]
    | some pos =>
      rw [hin] at hfind
      refine .inr (.inr ⟨hbody, by simp, ?_⟩)
      simp [feedHeaders, parseHeaders, overEmptyLine, hfind, headerLoop_emptyLine]

/-- **A response without header lines is never read.** Whatever the body is and however the bytes
are cut, the parser does not have this body at the end of the connection. -/
theorem emptyHead_never (h : EmptyHead) (body : Bytes) (cs : List Bytes)
    (hcs : cs.flatten = h.bytes ++ body) : ¬ ReadsEmptyHead h body cs := by
  intro hreads
  have hsettle : (feedAll {} cs).1.settle = (({} : ResponseParser).feed cs.flatten).1.settle :=
    feedAll_flatten {} true cs
  have hsame : Same (feedAll {} cs).1.markEof (({} : ResponseParser).feed cs.flatten).1.markEof :=
    same_of_settle (by rw [← markEof_settle, ← markEof_settle, hsettle])
  have hdone := hsame.done.symm.trans hreads.done
  have hbody := hsame.body.symm.trans hreads.body
  rw [hcs] at hdone hbody
  rcases feed_emptyHead h body with ⟨hcr, hrest⟩ | ⟨-, -, hwaits⟩ | ⟨-, -, herror⟩
  · -- Two bytes of the body are missing.
    have hlen : body.length = (body.drop 2).length := by rw [← hrest, hbody]
    have htwo := hcr.length_le
    simp only [crLf, List.length_cons, List.length_nil, List.length_drop] at hlen htwo
    omega
  · rw [hwaits] at hdone
    cases hdone
  · rw [herror] at hdone
    cases hdone

/-- The shortest status line with the code 204. -/
def noContentText : HeadText where
  version := ascii "1.1"
  d1 := 50
  d2 := 48
  d3 := 52
  rest := []
  lines := []

theorem noContentText_ok : space ∉ noContentText.version ∧
    (isDigit noContentText.d1 ∧ isDigit noContentText.d2 ∧ isDigit noContentText.d3) ∧
    12 ≤ noContentText.statusLine.length ∧
    (cr ∉ noContentText.statusLine ∧ lf ∉ noContentText.statusLine) := by
  decide

def noContentHead : EmptyHead where
  toHeadText := noContentText
  version_noSpace := noContentText_ok.1
  digits := noContentText_ok.2.1
  long := noContentText_ok.2.2.1
  statusLine_noCrLf := noContentText_ok.2.2.2
  lines_nil := rfl

/-- A body that starts with CRLF, cut in the empty line: the CRLF is lost. -/
theorem emptyHead_never_crLf :
    [ascii "HTTP/1.1 204\r\n\r", ascii "\n\r\nok"].flatten = noContentHead.bytes ++ ascii "\r\nok" ∧
      ¬ ReadsEmptyHead noContentHead (ascii "\r\nok")
        [ascii "HTTP/1.1 204\r\n\r", ascii "\n\r\nok"] :=
  ⟨by decide, emptyHead_never noContentHead (ascii "\r\nok") _ (by decide)⟩

/-- A head without a body, in one piece: the message is not complete at the end. -/
theorem emptyHead_noBody :
    [noContentHead.bytes].flatten = noContentHead.bytes ++ [] ∧
      (feedAll {} [noContentHead.bytes]).1.markEof.done = false ∧
      ¬ ReadsEmptyHead noContentHead [] [noContentHead.bytes] := by
  have hdone : (feedAll {} [noContentHead.bytes]).1.markEof.done = false := by decide +kernel
  refine ⟨by decide, hdone, fun hreads => ?_⟩
  rw [hreads.done] at hdone
  cases hdone

end ResponseParser

end TitanBench
