import TitanBench.HttpFraming
import TitanBench.HttpInvariant

/-!
# The status code

`ParseStatusLine` takes the three bytes behind the first space of the first line for the status
code and has `std::from_chars` read them into an `int`.

**What is wrong.** `std::from_chars` also reads a minus sign, and what follows the three bytes is
not looked at. So a code can be negative, and it can be cut out of a longer number.

* `ReadsCode` — what the stream says and the status code have to do with each other.
* `Misread` — the status lines of which another code is read.
* `Parsed` — everything `ParseStatusLine` can do.
* `status_code_iff` — exactly when the status code is right.
-/

namespace TitanBench

open Search

def minus : UInt8 := 45

/-- The bytes before the first CRLF. -/
def firstLine (s : Bytes) : Option Bytes := (find crLf s).map s.take

/-- The bytes behind the first space. -/
def afterSpace (line : Bytes) : Option Bytes :=
  (find [space] line).map fun firstSpace => line.drop (firstSpace + 1)

/-- The text starts with three digits that denote the code, and a space or nothing follows. -/
structure CodeDigits (text : Bytes) (code : ℤ) : Prop where
  three : 3 ≤ text.length
  digits : ∀ d ∈ text.take 3, isDigit d
  value : code = decimal (text.take 3)
  range : 0 ≤ code ∧ code ≤ 999
  follows : ∀ b ∈ (text.drop 3).head?, b = space

/-- The status code is the one in the first line of the stream. -/
def ReadsCode (s : Bytes) (code : ℤ) : Prop :=
  ∃ line text, firstLine s = some line ∧ afterSpace line = some text ∧ CodeDigits text code

/-- A minus sign and two digits, or three digits that do not end there. -/
inductive MisreadText : Bytes → Prop
  | negative {d1 d2 : UInt8} (rest : Bytes) : isDigit d1 → isDigit d2 →
      MisreadText (minus :: d1 :: d2 :: rest)
  | cut {d1 d2 d3 b : UInt8} (rest : Bytes) : isDigit d1 → isDigit d2 → isDigit d3 → b ≠ space →
      MisreadText (d1 :: d2 :: d3 :: b :: rest)

/-- The first line of the stream is a status line but for what is at the place of the code. -/
def Misread (s : Bytes) : Prop :=
  ∃ line text, firstLine s = some line ∧ 12 ≤ line.length ∧ line.take 5 = ascii "HTTP/" ∧
    afterSpace line = some text ∧ MisreadText text

/-! ## Three bytes as a number -/

theorem isDigit_iff {b : UInt8} : isDigit b = true ↔ 48 ≤ b.toNat ∧ b.toNat ≤ 57 := by
  simp [isDigit, UInt8.le_iff_toNat_le]

theorem not_isDigit_minus : ¬ isDigit minus = true := by decide

theorem decimal_three_le {d1 d2 d3 : UInt8} (h1 : isDigit d1) (h2 : isDigit d2) (h3 : isDigit d3) :
    decimal [d1, d2, d3] ≤ 999 := by
  rw [decimal_triple]
  have h1 := (isDigit_iff.mp h1).2
  have h2 := (isDigit_iff.mp h2).2
  have h3 := (isDigit_iff.mp h3).2
  omega

theorem fromCharsInt_minus {d1 d2 : UInt8} (h1 : isDigit d1) (h2 : isDigit d2) :
    fromCharsInt [minus, d1, d2] = some (-(decimal [d1, d2] : ℤ), []) := by
  have hle : decimal [d1, d2] ≤ 99 := by
    have h1 := (isDigit_iff.mp h1).2
    have h2 := (isDigit_iff.mp h2).2
    simp only [decimal, List.foldl_cons, List.foldl_nil]
    omega
  have hsmall : ¬ (-(decimal [d1, d2] : ℤ) < -2 ^ 31 ∨ 2 ^ 31 ≤ -(decimal [d1, d2] : ℤ)) := by
    omega
  simp [fromCharsInt, minus, h1, h2]
  simpa using hsmall

/-- What `std::from_chars` reads to the end are digits, or a minus sign and digits. -/
theorem fromCharsInt_all {t : Bytes} {code : ℤ} (h : fromCharsInt t = some (code, [])) :
    ((∀ d ∈ t, isDigit d) ∧ code = decimal t) ∨
      ∃ ds, t = minus :: ds ∧ ∀ d ∈ ds, isDigit d := by
  unfold fromCharsInt at h
  dsimp only at h
  by_cases hminus : t.head? = some 45
  · obtain ⟨ds, rfl⟩ := List.head?_eq_some_iff.mp hminus
    simp only [if_pos hminus, List.tail_cons, Option.ite_none_left_eq_some] at h
    exact .inr ⟨ds, rfl, List.dropWhile_eq_nil_iff.mp (Prod.mk.inj (Option.some.inj h.2)).2⟩
  · simp only [if_neg hminus, Option.ite_none_left_eq_some] at h
    obtain ⟨hcode, hrest⟩ := Prod.mk.inj (Option.some.inj h.2)
    have hall := List.dropWhile_eq_nil_iff.mp hrest
    rw [List.takeWhile_eq_self_iff.mpr hall] at hcode
    exact .inl ⟨hall, hcode.symm⟩

/-! ## One status line -/

/-- The errors `ParseStatusLine` sets. -/
def statusLineErrors : List String :=
  ["invalid status line", "invalid status line format", "invalid status code"]

/-- The line passes the checks of `ParseStatusLine`, with `text` behind its first space. -/
structure Readable (line text : Bytes) (code : ℤ) : Prop where
  long : 12 ≤ line.length
  http : line.take 5 = ascii "HTTP/"
  behind : afterSpace line = some text
  three : 3 ≤ text.length
  read : fromCharsInt (text.take 3) = some (code, [])

theorem afterSpace_length {line text : Bytes} {firstSpace : ℕ}
    (hspace : find [space] line = some firstSpace) (h : afterSpace line = some text) :
    text = line.drop (firstSpace + 1) ∧ text.length + firstSpace + 1 = line.length := by
  rw [afterSpace, hspace] at h
  cases h
  have hle := find_bound hspace
  simp only [List.length_singleton] at hle
  exact ⟨rfl, by rw [List.length_drop]; omega⟩

/-- Three readable bytes are three digits, unless they are misread. -/
theorem Readable.codeDigits {line text : Bytes} {code : ℤ} (h : Readable line text code)
    (hno : ¬ MisreadText text) : CodeDigits text code := by
  obtain ⟨a, b, c, rest, rfl⟩ : ∃ a b c rest, text = a :: b :: c :: rest := by
    match text, h.three with
    | a :: b :: c :: rest, _ => exact ⟨a, b, c, rest, rfl⟩
  rcases fromCharsInt_all h.read with ⟨hall, hcode⟩ | ⟨ds, hds, hall⟩
  · have hdigits : isDigit a ∧ isDigit b ∧ isDigit c := by simpa using hall
    have hle := decimal_three_le hdigits.1 hdigits.2.1 hdigits.2.2
    have hcode' : code = decimal [a, b, c] := hcode
    refine ⟨h.three, hall, hcode, ⟨by omega, by omega⟩, ?_⟩
    intro d hd
    cases rest with
    | nil => cases hd
    | cons e rest =>
      cases hd
      by_contra hspace
      exact hno (.cut rest hdigits.1 hdigits.2.1 hdigits.2.2 hspace)
  · cases hds
    have hdigits : isDigit b ∧ isDigit c := by simpa using hall
    exact absurd (.negative rest hdigits.1 hdigits.2) hno

/-- A misread text is read as a number, but not as its three digits. -/
theorem MisreadText.readable {line text : Bytes} (h : MisreadText text)
    (hlong : 12 ≤ line.length) (hhttp : line.take 5 = ascii "HTTP/")
    (htext : afterSpace line = some text) :
    (∃ code, Readable line text code) ∧ ∀ code, ¬ CodeDigits text code := by
  cases h with
  | negative rest h1 h2 =>
    refine ⟨⟨_, hlong, hhttp, htext, by simp, fromCharsInt_minus h1 h2⟩, ?_⟩
    intro code hcode
    exact not_isDigit_minus (hcode.digits minus (by simp))
  | @cut d1 d2 d3 b rest h1 h2 h3 hb =>
    refine ⟨⟨_, hlong, hhttp, htext, by simp, fromCharsInt_triple ⟨h1, h2, h3⟩⟩, ?_⟩
    intro code hcode
    exact hb (hcode.follows b rfl)

namespace ResponseParser

/-- Everything `ParseStatusLine` can do. -/
inductive Parsed (p : ResponseParser) : ResponseParser × Bool → Prop
  | waits : firstLine p.pending = none → Parsed p (p, true)
  | refuses {line : Bytes} {msg : String} : firstLine p.pending = some line →
      (∀ text code, ¬ Readable line text code) → msg ∈ statusLineErrors →
      Parsed p (p.setError msg, false)
  | reads {line text : Bytes} {code : ℤ} (rest : Bytes) : firstLine p.pending = some line →
      Readable line text code →
      Parsed p ({ p with
        response := { p.response with statusCode := code }
        pending := rest
        state := .headers }, true)

theorem parseStatusLine_parsed (p : ResponseParser) : Parsed p p.parseStatusLine := by
  unfold parseStatusLine
  cases hfind : find crLf p.pending with
  | none => exact .waits (by rw [firstLine, hfind]; rfl)
  | some pos =>
    have hline : firstLine p.pending = some (p.pending.take pos) := by
      rw [firstLine, hfind]
      rfl
    dsimp only
    generalize p.pending.take pos = line at hline
    by_cases hhttp : line.length < 12 ∨ line.take 5 ≠ ascii "HTTP/"
    · rw [if_pos hhttp]
      refine .refuses hline ?_ (by simp [statusLineErrors])
      intro text code hread
      rcases hhttp with hshort | hother
      · exact absurd hread.long (not_le.mpr hshort)
      · exact hother hread.http
    rw [if_neg hhttp]
    cases hspace : find [space] line with
    | none =>
      refine .refuses hline ?_ (by simp [statusLineErrors])
      intro text code hread
      have htext := hread.behind
      rw [afterSpace, hspace] at htext
      cases htext
    | some firstSpace =>
      have htext : afterSpace line = some (line.drop (firstSpace + 1)) := by
        rw [afterSpace, hspace]
        rfl
      obtain ⟨-, hlen⟩ := afterSpace_length hspace htext
      have hsame : ∀ text code, Readable line text code → text = line.drop (firstSpace + 1) :=
        fun text code hread => Option.some.inj (hread.behind.symm.trans htext)
      dsimp only
      by_cases hshort : firstSpace + 4 > line.length
      · rw [if_pos hshort]
        refine .refuses hline ?_ (by simp [statusLineErrors])
        intro text code hread
        have hthree := hread.three
        rw [hsame text code hread] at hthree
        omega
      rw [if_neg hshort]
      split
      · rename_i code hcode
        rw [not_or, not_lt, not_not] at hhttp
        exact .reads _ hline ⟨hhttp.1, hhttp.2, htext, by omega, hcode⟩
      · rename_i hcode
        refine .refuses hline ?_ (by simp [statusLineErrors])
        intro text code hread
        have hread' := hread.read
        rw [hsame text code hread] at hread'
        exact hcode code hread'

/-! ## The rest of the head -/

/-- The parser has left its first state, and not with an error of the status line. -/
def PastStatusLine (p : ResponseParser) : Prop :=
  p.state ≠ .statusLine ∧ p.errorMessage ∉ statusLineErrors

/-- The parser is past the status line, with this code. -/
structure Coded (code : ℤ) (p : ResponseParser) : Prop where
  past : p.PastStatusLine
  statusCode : p.response.statusCode = code

variable {p : ResponseParser} {code : ℤ}

theorem Coded.setError (h : Coded code p) {msg : String} (hmsg : msg ∉ statusLineErrors) :
    Coded code (p.setError msg) :=
  ⟨⟨by simp, hmsg⟩, h.statusCode⟩

theorem Coded.parseBody (h : Coded code p) : Coded code p.parseBody.1 := by
  rw [parseBody_eq]
  split_ifs
  · exact ⟨h.past, h.statusCode⟩
  · exact ⟨⟨by simp [fillBody], h.past.2⟩, h.statusCode⟩
  · exact h.setError (by simp [statusLineErrors])

theorem parseHeaderLine_statusCode {line : Bytes} {r r' : Response}
    (h : parseHeaderLine line r = .ok r') : r'.statusCode = r.statusCode := by
  unfold parseHeaderLine at h
  split at h
  · cases h
  · split_ifs at h
    · split at h <;> cases h
      rfl
    all_goals
      cases h
      rfl

/-- No header line changes the code, and its errors are others. -/
theorem Coded.parseHeaders (h : Coded code p) : Coded code p.parseHeaders.1 := by
  unfold ResponseParser.parseHeaders
  cases hfind : find crLfCrLf p.pending with
  | none => exact h
  | some pos =>
    have hcr : crLf <+: p.pending.drop pos :=
      (List.prefix_append crLf crLf).trans (find_eq_some_iff.1 hfind).2.1
    have herror := @headerLoop_error p.pending pos hcr (find_eq_some_iff.1 hfind).1 pos 0 p.response
    have hcode := @headerLoop_keeps _ Response.statusCode (fun _ _ _ => parseHeaderLine_statusCode)
      p.pending pos pos 0 p.response
    dsimp only
    generalize headerLoop p.pending pos pos 0 p.response = res at herror hcode
    obtain ⟨r, err⟩ := res
    have hread : Coded code { p with response := r } := ⟨h.past, hcode.trans h.statusCode⟩
    cases err with
    | some msg =>
      dsimp only
      apply hread.setError
      rcases herror rfl with rfl | rfl <;> simp [statusLineErrors]
    | none =>
      apply Coded.parseBody
      exact ⟨⟨by simp, h.past.2⟩, hread.statusCode⟩

theorem Coded.feedHeaders (h : Coded code p) : Coded code p.feedHeaders.1 := by
  have hparsed := h.parseHeaders
  unfold ResponseParser.feedHeaders
  dsimp only
  split_ifs
  · exact hparsed
  · exact hparsed.parseBody
  · exact hparsed

/-! ## All bytes at once -/

/-- What the parser knows of the status line after the stream. -/
inductive Knows (s : Bytes) (p : ResponseParser) : Prop
  | waits : firstLine s = none → p.state = .statusLine → Knows s p
  | refuses {line : Bytes} : firstLine s = some line → (∀ text code, ¬ Readable line text code) →
      p.errorMessage ∈ statusLineErrors → Knows s p
  | reads {line text : Bytes} {code : ℤ} : firstLine s = some line → Readable line text code →
      Coded code p → Knows s p

theorem feed_knows (s : Bytes) : Knows s (({} : ResponseParser).feed s).1 := by
  rcases eq_or_ne s [] with rfl | hne
  · exact .waits rfl rfl
  rw [feed_statusLine rfl hne, feedStatusLine]
  have hparsed := parseStatusLine_parsed (({} : ResponseParser).more s)
  generalize (({} : ResponseParser).more s).parseStatusLine = r at hparsed
  have hpending : (({} : ResponseParser).more s).pending = s := rfl
  cases hparsed with
  | waits hnone =>
    rw [hpending] at hnone
    exact .waits hnone rfl
  | refuses hline hno hmsg =>
    rw [hpending] at hline
    exact .refuses hline hno hmsg
  | reads rest hline hread =>
    rw [hpending] at hline
    refine .reads hline hread ?_
    apply Coded.feedHeaders
    exact ⟨⟨by simp, by simp [more, statusLineErrors]⟩, rfl⟩

/-- The same for any pieces. -/
theorem feedAll_knows (cs : List Bytes) : Knows cs.flatten (feedAll {} cs).1 := by
  have hsame := same_of_settle (feedAll_flatten {} true cs)
  have hpast : (({} : ResponseParser).feed cs.flatten).1.PastStatusLine →
      (feedAll {} cs).1.PastStatusLine := by
    rintro ⟨hstate, hmsg⟩
    exact ⟨by rwa [feedAll, hsame.state], by rwa [feedAll, hsame.errorMessage]⟩
  cases feed_knows cs.flatten with
  | waits hnone hstate => exact .waits hnone (hsame.state.trans hstate)
  | refuses hline hno hmsg =>
    refine .refuses hline hno ?_
    rwa [feedAll, hsame.errorMessage]
  | reads hline hread hcoded =>
    refine .reads hline hread ⟨hpast hcoded.past, ?_⟩
    rw [feedAll, hsame.response, hcoded.statusCode]

/-- **Exactly when the status code is the one in the stream.** However the stream is cut: that a
parser which gets past the status line has the three digits of its first line for a code holds if
and only if the first line has no minus sign there, and nothing but a space behind the digits. -/
theorem status_code_iff (cs : List Bytes) :
    ((feedAll {} cs).1.PastStatusLine →
        ReadsCode cs.flatten (feedAll {} cs).1.response.statusCode) ↔ ¬ Misread cs.flatten := by
  have hknows := feedAll_knows cs
  generalize (feedAll {} cs).1 = p at hknows
  constructor
  · rintro hclaim ⟨line, text, hline, hlong, hhttp, htext, hmis⟩
    obtain ⟨⟨code, hread⟩, hno⟩ := hmis.readable hlong hhttp htext
    cases hknows with
    | waits hnone _ =>
      rw [hline] at hnone
      cases hnone
    | refuses hline' hnot _ =>
      rw [hline] at hline'
      cases hline'
      exact hnot text code hread
    | reads _ _ hcoded =>
      obtain ⟨line', text', hline', htext', hcode⟩ := hclaim hcoded.past
      rw [hline] at hline'
      cases hline'
      rw [htext] at htext'
      cases htext'
      exact hno _ hcode
  · intro hno hpast
    cases hknows with
    | waits _ hstate => exact absurd hstate hpast.1
    | refuses _ _ hmsg => exact absurd hmsg hpast.2
    | @reads line text code hline hread hcoded =>
      rw [hcoded.statusCode]
      refine ⟨line, text, hline, hread.behind, hread.codeDigits fun hmis => hno ?_⟩
      exact ⟨line, text, hline, hread.long, hread.http, hread.behind, hmis⟩

/-- A status line with the code -20. -/
theorem status_code_negative :
    (feedAll {} [ascii "HTTP/1.1 -20 OK\r\n"]).1.PastStatusLine ∧
      (feedAll {} [ascii "HTTP/1.1 -20 OK\r\n"]).1.response.statusCode = -20 ∧
      ¬ ReadsCode [ascii "HTTP/1.1 -20 OK\r\n"].flatten
        (feedAll {} [ascii "HTTP/1.1 -20 OK\r\n"]).1.response.statusCode := by
  have hcode : (feedAll {} [ascii "HTTP/1.1 -20 OK\r\n"]).1.response.statusCode = -20 := by
    decide +kernel
  refine ⟨⟨by decide +kernel, by decide +kernel⟩, hcode, ?_⟩
  rintro ⟨line, text, -, -, hdigits⟩
  rw [hcode] at hdigits
  exact absurd hdigits.range.1 (by decide)

end ResponseParser

end TitanBench
