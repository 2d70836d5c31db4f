import Mathlib.Algebra.Order.Ring.Int
import Mathlib.Data.List.DropRight
import TitanBench.Lib.Search

/-!
# HTTP/1.1: the GET request and the incremental response parser

Texts are byte lists. A chunk handed to `feed` is the `len` bytes at `data`.

* `buildGetRequest` — the request packet.
* `ResponseParser` — the five-state parser; `feed` appends a chunk to `pending` and runs the
  parse functions until one of them has to wait for more bytes.

`std::string::find` is `Search.find`, `std::from_chars` is `fromCharsU64` and `fromCharsInt`:
they return the value and the unread rest, `none` for an error code.
-/

namespace TitanBench

open Search

abbrev Bytes := List UInt8

/-- The bytes of an ASCII literal. -/
def ascii (s : String) : Bytes := s.toList.map fun c => UInt8.ofNat c.toNat

def cr : UInt8 := 13
def lf : UInt8 := 10
def space : UInt8 := 32
def colon : UInt8 := 58
def slash : UInt8 := 47

def crLf : Bytes := [cr, lf]
def crLfCrLf : Bytes := [cr, lf, cr, lf]

/-! ## Text helpers -/

/-- `std::isspace` in the C locale. -/
def isSpace (b : UInt8) : Bool := b == space || (9 ≤ b && b ≤ 13)

def isDigit (b : UInt8) : Bool := 48 ≤ b && b ≤ 57

def toLowerByte (b : UInt8) : UInt8 := if 65 ≤ b && b ≤ 90 then b - 65 + 97 else b

def toLowerAscii (s : Bytes) : Bytes := s.map toLowerByte

def trimAscii (s : Bytes) : Bytes := (s.dropWhile isSpace).rdropWhile isSpace

/-- The number a digit text denotes. -/
def decimal (ds : Bytes) : ℕ := ds.foldl (fun n d => 10 * n + (d.toNat - 48)) 0

/-- `std::from_chars` into a `std::size_t`: the longest digit text, an error when it is empty
or its value does not fit. -/
def fromCharsU64 (s : Bytes) : Option (ℕ × Bytes) :=
  let ds := s.takeWhile isDigit
  if ds = [] ∨ 2 ^ 64 ≤ decimal ds then none else some (decimal ds, s.dropWhile isDigit)

/-- `std::from_chars` into an `int`, which also reads a leading minus sign. -/
def fromCharsInt (s : Bytes) : Option (ℤ × Bytes) :=
  let negative := s.head? = some 45
  let t := if negative then s.tail else s
  let ds := t.takeWhile isDigit
  let value : ℤ := if negative then -(decimal ds : ℤ) else decimal ds
  if ds = [] ∨ value < -2 ^ 31 ∨ 2 ^ 31 ≤ value then none else some (value, t.dropWhile isDigit)

/-! ## Requests -/

structure Header where
  key : Bytes
  value : Bytes
  deriving DecidableEq

structure Request where
  host : Bytes := []
  path : Bytes := [slash]
  headers : List Header := []
  keepAlive : Bool := true
  deriving DecidableEq

def headerExists (headers : List Header) (key : Bytes) : Bool :=
  headers.any fun h => toLowerAscii h.key == toLowerAscii key

def buildGetRequest (request : Request) : Bytes :=
  let path := if request.path = [] then [slash] else request.path
  let path := if path.head? ≠ some slash then slash :: path else path
  let hasConnection := request.headers.any fun h => toLowerAscii h.key == ascii "connection"
  ascii "GET " ++ path ++ ascii " HTTP/1.1" ++ crLf
    ++ ascii "Host: " ++ request.host ++ crLf
    ++ request.headers.flatMap (fun h => h.key ++ ascii ": " ++ h.value ++ crLf)
    ++ (if hasConnection then []
        else ascii "Connection: " ++ ascii (if request.keepAlive then "keep-alive" else "close")
          ++ crLf)
    ++ (if headerExists request.headers (ascii "accept") then [] else ascii "Accept: */*" ++ crLf)
    ++ crLf

/-! ## Responses -/

structure Response where
  statusCode : ℤ := 0
  contentLength : ℕ := 0
  hasContentLength : Bool := false
  headerDone : Bool := false
  messageComplete : Bool := false
  keepAlive : Bool := true
  deriving DecidableEq, Repr

inductive ResultStatus
  | ok
  | parseError
  | timeout
  | networkError
  | incomplete
  deriving DecidableEq, Repr

structure Result where
  status : ResultStatus := .incomplete
  latencyNs : ℤ := 0
  bytesSent : ℕ := 0
  bytesReceived : ℕ := 0
  error : String := ""

inductive ParserState
  | statusLine
  | headers
  | body
  | done
  | error
  deriving DecidableEq, Repr

structure ResponseParser where
  state : ParserState := .statusLine
  response : Response := {}
  errorMessage : String := ""
  pending : Bytes := []
  body : Bytes := []
  deriving DecidableEq, Repr

namespace ResponseParser

/-- `Reset`: every field gets its initial value. -/
def reset (_ : ResponseParser) : ResponseParser := {}

def done (p : ResponseParser) : Bool := p.response.messageComplete

def setError (p : ResponseParser) (msg : String) : ResponseParser :=
  { p with errorMessage := msg, state := .error }

def parseStatusLine (p : ResponseParser) : ResponseParser × Bool :=
  match find crLf p.pending with
  | none => (p, true)
  | some pos =>
    let line := p.pending.take pos
    if line.length < 12 ∨ line.take 5 ≠ ascii "HTTP/" then
      (p.setError "invalid status line", false)
    else
      match find [space] line with
      | none => (p.setError "invalid status line format", false)
      | some firstSpace =>
        if firstSpace + 4 > line.length then (p.setError "invalid status line format", false)
        else
          match fromCharsInt ((line.drop (firstSpace + 1)).take 3) with
          | some (code, []) =>
            ⟨{ p with
                response := { p.response with statusCode := code }
                pending := p.pending.drop (pos + 2)
                state := .headers }, true⟩
          | _ => (p.setError "invalid status code", false)

/-- The key of a header line whose colon is at position `c`. -/
def headerKey (line : Bytes) (c : ℕ) : Bytes := toLowerAscii (trimAscii (line.take c))

/-- The value of a header line whose colon is at position `c`. -/
def headerValue (line : Bytes) (c : ℕ) : Bytes := toLowerAscii (trimAscii (line.drop (c + 1)))

/-- The body of the header loop, on one line. -/
def parseHeaderLine (line : Bytes) (r : Response) : Except String Response :=
  match find [colon] line with
  | none => .error "malformed header"
  | some c =>
    if headerKey line c = ascii "content-length" then
      match fromCharsU64 (headerValue line c) with
      | some (parsedLen, []) => .ok { r with hasContentLength := true, contentLength := parsedLen }
      | _ => .error "invalid content-length"
    else if headerKey line c = ascii "connection" then
      if headerValue line c = ascii "close" then .ok { r with keepAlive := false }
      else if headerValue line c = ascii "keep-alive" then .ok { r with keepAlive := true }
      else .ok r
    else .ok r

/-- The header loop over `pending` from `lineBegin`, the head ending at `pos`. It returns the
response as far as it was filled and the error, if any. A line takes at least two bytes, so
`pos` rounds are enough. -/
def headerLoop (pending : Bytes) (pos : ℕ) : ℕ → ℕ → Response → Response × Option String
  | 0, _, r => (r, none)
  | fuel + 1, lineBegin, r =>
    if lineBegin < pos then
      match findFrom crLf pending lineBegin with
      | none => (r, some "invalid header line")
      | some lineEnd =>
        if lineEnd > pos then (r, some "invalid header line")
        else
          match parseHeaderLine ((pending.drop lineBegin).take (lineEnd - lineBegin)) r with
          | .error msg => (r, some msg)
          | .ok r' => headerLoop pending pos fuel (lineEnd + 2) r'
    else (r, none)

def parseBody (p : ResponseParser) : ResponseParser × Bool :=
  if ¬ p.response.hasContentLength then
    -- Without a length only the end of the connection completes the message.
    ⟨{ p with body := p.body ++ p.pending, pending := [] }, true⟩
  else
    let need := p.response.contentLength
    let take := min (need - p.body.length) p.pending.length
    let p :=
      if p.body.length < need then
        { p with body := p.body ++ p.pending.take take, pending := p.pending.drop take }
      else p
    if p.body.length = need then
      ⟨{ p with response := { p.response with messageComplete := true }, state := .done }, true⟩
    else if p.body.length > need then (p.setError "body larger than content-length", false)
    else (p, true)

def parseHeaders (p : ResponseParser) : ResponseParser × Bool :=
  match find crLfCrLf p.pending with
  | none => (p, true)
  | some pos =>
    match headerLoop p.pending pos pos 0 p.response with
    | (r, some msg) => ⟨{ p with response := r }.setError msg, false⟩
    | (r, none) =>
      parseBody
        { p with
          response := { r with headerDone := true }
          pending := p.pending.drop (pos + 4)
          state := .body }

/-! The loop of `Feed`, entered in each of its states. A state only breaks out of the `switch`
to run the loop again in the next one. -/

def feedHeaders (p : ResponseParser) : ResponseParser × Bool :=
  let (q, ok) := p.parseHeaders
  if ¬ ok then (q, false)
  else if q.state ≠ .body then (q, q.state ≠ .error)
  else q.parseBody

def feedStatusLine (p : ResponseParser) : ResponseParser × Bool :=
  let (q, ok) := p.parseStatusLine
  if ¬ ok then (q, false)
  else if q.state ≠ .headers then (q, q.state ≠ .error)
  else q.feedHeaders

def feed (p : ResponseParser) (data : Bytes) : ResponseParser × Bool :=
  if p.state = .error ∨ p.state = .done then (p, p.state = .done)
  else if data = [] then (p, true)
  else
    let p := { p with pending := p.pending ++ data }
    match p.state with
    | .statusLine => p.feedStatusLine
    | .headers => p.feedHeaders
    | .body => p.parseBody
    | .done => (p, true)
    | .error => (p, false)

def markEof (p : ResponseParser) : ResponseParser :=
  if p.state = .body ∧ ¬ p.response.hasContentLength then
    { p with
      body := p.body ++ p.pending
      pending := []
      response :=
        { p.response with
          contentLength := (p.body ++ p.pending).length
          messageComplete := true }
      state := .done }
  else p

end ResponseParser

end TitanBench
