import Mathlib.Data.List.Basic
import TitanBench.HttpChunking

/-!
# Where a response ends

`ResponseHead` is a well-formed head on the wire: a status line with a three-digit code, header
lines with a colon, the empty line. The parser fed the head and any bytes behind it, in any
pieces, completes the message at exactly the byte the last `Content-Length` says, or at the
end of the connection when there is none (`framing`).

* `headerEffect` — what one header line does to the response.
* `feed_head` — the parser fed the whole head and the bytes `b` behind it.
* `feed_short` — the parser fed less than the head.
-/

namespace TitanBench

open Search

/-! ## Heads -/

/-- The text of a response head. -/
structure HeadText where
  version : Bytes
  d1 : UInt8
  d2 : UInt8
  d3 : UInt8
  rest : Bytes
  lines : List Bytes

/-- Lines, each with its CRLF. -/
def block (lines : List Bytes) : Bytes := lines.flatMap (· ++ crLf)

namespace HeadText

def statusLine (h : HeadText) : Bytes :=
  ascii "HTTP/" ++ h.version ++ [space, h.d1, h.d2, h.d3] ++ h.rest

def bytes (h : HeadText) : Bytes := h.statusLine ++ crLf ++ block h.lines ++ crLf

def statusCode (h : HeadText) : ℕ := decimal [h.d1, h.d2, h.d3]

end HeadText

/-- A well-formed response head with at least one header line. -/
structure ResponseHead extends HeadText where
  version_noSpace : space ∉ version
  digits : isDigit d1 ∧ isDigit d2 ∧ isDigit d3
  long : 12 ≤ toHeadText.statusLine.length
  statusLine_noCrLf : cr ∉ toHeadText.statusLine ∧ lf ∉ toHeadText.statusLine
  lines_ne : lines ≠ []
  lines_colon : ∀ l ∈ lines, colon ∈ l
  lines_noCrLf : ∀ l ∈ lines, cr ∉ l ∧ lf ∉ l

/-- The key of a header line, trimmed and lower-cased. -/
def lineKey (l : Bytes) : Bytes := toLowerAscii (trimAscii (l.takeWhile (· ≠ colon)))

/-- The value of a header line, trimmed. -/
def lineValue (l : Bytes) : Bytes := trimAscii (l.dropWhile (· ≠ colon)).tail

def isContentLength (l : Bytes) : Bool := lineKey l == ascii "content-length"

/-- A `Connection` header that says what becomes of the connection. -/
def decidesConnection (l : Bytes) : Bool :=
  lineKey l == ascii "connection" &&
    (toLowerAscii (lineValue l) == ascii "close" ||
      toLowerAscii (lineValue l) == ascii "keep-alive")

/-- One or more decimal digits denoting a number below `2 ^ 64`. -/
def IsSize (v : Bytes) : Prop := v ≠ [] ∧ (∀ b ∈ v, isDigit b) ∧ decimal v < 2 ^ 64

instance (v : Bytes) : Decidable (IsSize v) :=
  haveI : Decidable (∀ b ∈ v, isDigit b) := List.decidableBAll _ v
  instDecidableAnd

namespace ResponseHead

/-- The value of the last `Content-Length` header. -/
def contentLength? (h : ResponseHead) : Option ℕ :=
  (h.lines.filter isContentLength).getLast?.map fun l => decimal (lineValue l)

/-- What the last deciding `Connection` header says, keep-alive when there is none. -/
def keepAlive (h : ResponseHead) : Bool :=
  (h.lines.filter decidesConnection).getLast?.elim true
    fun l => toLowerAscii (lineValue l) == ascii "keep-alive"

end ResponseHead

/-! ## One header line -/

/-- The text before the first colon and the text after it. -/
theorem find_colon {l : Bytes} (h : colon ∈ l) :
    ∃ c, find [colon] l = some c ∧ l.take c = l.takeWhile (· ≠ colon) ∧
      l.drop (c + 1) = (l.dropWhile (· ≠ colon)).tail := by
  obtain ⟨u, v, rfl, hu⟩ := List.eq_append_cons_of_mem h
  have hne : ∀ b ∈ u, decide (b ≠ colon) = true := by
    intro b hb
    rw [decide_eq_true_eq]
    exact fun hbc => hu (hbc ▸ hb)
  refine ⟨u.length, find_after_notMem hu, ?_, ?_⟩
  · rw [List.takeWhile_append_of_pos hne]
    simp
  · rw [List.dropWhile_append_of_pos hne]
    simp [List.drop_append]

theorem toLowerByte_digit {b : UInt8} (h : isDigit b) : toLowerByte b = b := by
  simp only [isDigit, Bool.and_eq_true, decide_eq_true_eq, UInt8.le_iff_toNat_le] at h
  have h57 : b.toNat ≤ 57 := h.2
  have hnot : ¬ (65 ≤ b ∧ b ≤ 90) := by
    rintro ⟨h65, -⟩
    have : 65 ≤ b.toNat := UInt8.le_iff_toNat_le.1 h65
    omega
  simp [toLowerByte, hnot]

theorem toLowerAscii_digits {v : Bytes} (h : ∀ b ∈ v, isDigit b) : toLowerAscii v = v := by
  rw [toLowerAscii, List.map_congr_left fun b hb => toLowerByte_digit (h b hb), List.map_id']

theorem fromCharsU64_size {v : Bytes} (h : IsSize v) : fromCharsU64 v = some (decimal v, []) := by
  obtain ⟨hne, hdig, hlt⟩ := h
  have htake : v.takeWhile isDigit = v := List.takeWhile_eq_self_iff.2 hdig
  have hdrop : v.dropWhile isDigit = [] := List.dropWhile_eq_nil_iff.2 hdig
  simp only [fromCharsU64, htake, hdrop]
  rw [if_neg]
  rintro (h | h)
  · exact hne h
  · omega

theorem decimal_triple (d1 d2 d3 : UInt8) :
    decimal [d1, d2, d3] =
      100 * (d1.toNat - 48) + 10 * (d2.toNat - 48) + (d3.toNat - 48) := by
  simp only [decimal, List.foldl_cons, List.foldl_nil]
  omega

theorem fromCharsInt_triple {d1 d2 d3 : UInt8} (h : isDigit d1 ∧ isDigit d2 ∧ isDigit d3) :
    fromCharsInt [d1, d2, d3] = some ((decimal [d1, d2, d3] : ℤ), []) := by
  obtain ⟨h1, h2, h3⟩ := h
  have hminus : d1 ≠ 45 := fun hd => by simp [hd, isDigit] at h1
  have hlt : decimal [d1, d2, d3] < 2 ^ 31 := by
    rw [decimal_triple]
    have := d1.toNat_lt
    have := d2.toNat_lt
    have := d3.toNat_lt
    omega
  simp only [fromCharsInt, List.head?_cons, Option.some.injEq, hminus, if_false,
    List.takeWhile_cons, h1, h2, h3, if_true, List.takeWhile_nil, List.dropWhile_cons,
    List.dropWhile_nil]
  rw [if_neg]
  rintro (h | h | h)
  · exact absurd h (List.cons_ne_nil _ _)
  · omega
  · omega

/-- What a header line does to the response. -/
def headerEffect (r : Response) (l : Bytes) : Response :=
  if isContentLength l then
    { r with hasContentLength := true, contentLength := decimal (lineValue l) }
  else if decidesConnection l then
    { r with keepAlive := toLowerAscii (lineValue l) == ascii "keep-alive" }
  else r

theorem parseHeaderLine_eq {l : Bytes} (hcolon : colon ∈ l)
    (hsize : isContentLength l → IsSize (lineValue l)) (r : Response) :
    ResponseParser.parseHeaderLine l r = .ok (headerEffect r l) := by
  obtain ⟨c, hc, htake, hdrop⟩ := find_colon hcolon
  have hkey : ResponseParser.headerKey l c = lineKey l := by
    rw [ResponseParser.headerKey, htake, lineKey]
  have hvalue : ResponseParser.headerValue l c = toLowerAscii (lineValue l) := by
    rw [ResponseParser.headerValue, hdrop, lineValue]
  simp only [ResponseParser.parseHeaderLine, hc, hkey, hvalue, headerEffect]
  by_cases hcl : isContentLength l
  · have hk : lineKey l = ascii "content-length" := by simpa [isContentLength] using hcl
    rw [if_pos hk, if_pos hcl, toLowerAscii_digits (hsize hcl).2.1, fromCharsU64_size (hsize hcl)]
  · have hk : lineKey l ≠ ascii "content-length" := by simpa [isContentLength] using hcl
    rw [if_neg hk, if_neg hcl]
    have hdiff : ascii "close" ≠ ascii "keep-alive" := by decide
    by_cases hconn : lineKey l = ascii "connection"
    · rw [if_pos hconn]
      by_cases hclose : toLowerAscii (lineValue l) = ascii "close"
      · simp [decidesConnection, hconn, hclose, hdiff]
      · by_cases hkeep : toLowerAscii (lineValue l) = ascii "keep-alive"
        · simp [decidesConnection, hconn, hkeep, hdiff.symm]
        · simp [decidesConnection, hconn, hclose, hkeep]
    · simp [decidesConnection, hconn]

/-! ## All header lines -/

/-- What the header lines do to a response, in order. -/
def headersEffect (lines : List Bytes) (r : Response) : Response := lines.foldl headerEffect r

@[simp] theorem headersEffect_concat (lines : List Bytes) (l : Bytes) (r : Response) :
    headersEffect (lines ++ [l]) r = headerEffect (headersEffect lines r) l := by
  simp [headersEffect]

theorem not_decidesConnection {l : Bytes} (h : isContentLength l) :
    decidesConnection l = false := by
  have hk : lineKey l = ascii "content-length" := by simpa [isContentLength] using h
  have hdiff : ascii "content-length" ≠ ascii "connection" := by decide
  simp [decidesConnection, hk, hdiff]

theorem headersEffect_statusCode (lines : List Bytes) (r : Response) :
    (headersEffect lines r).statusCode = r.statusCode ∧
      (headersEffect lines r).messageComplete = r.messageComplete := by
  induction lines using List.reverseRecOn with
  | nil => exact ⟨rfl, rfl⟩
  | append_singleton lines l ih =>
    rw [headersEffect_concat, headerEffect]
    split_ifs <;> exact ih

/-- The last `Content-Length` header sets the length. -/
theorem headersEffect_contentLength (lines : List Bytes) (r : Response) :
    ((lines.filter isContentLength).getLast? = none →
      (headersEffect lines r).hasContentLength = r.hasContentLength) ∧
    ∀ l, (lines.filter isContentLength).getLast? = some l →
      (headersEffect lines r).hasContentLength = true ∧
        (headersEffect lines r).contentLength = decimal (lineValue l) := by
  induction lines using List.reverseRecOn with
  | nil => exact ⟨fun _ => rfl, fun l h => by simp at h⟩
  | append_singleton lines k ih =>
    rw [headersEffect_concat, headerEffect, List.filter_append]
    by_cases hk : isContentLength k
    · simp [hk]
    · have hfilter : [k].filter isContentLength = [] := by simp [hk]
      rw [hfilter, List.append_nil, if_neg hk]
      split_ifs
      · exact ih
      · exact ih

/-- The last deciding `Connection` header sets the keep-alive flag. -/
theorem headersEffect_keepAlive (lines : List Bytes) (r : Response) :
    (headersEffect lines r).keepAlive =
      (lines.filter decidesConnection).getLast?.elim r.keepAlive
        fun l => toLowerAscii (lineValue l) == ascii "keep-alive" := by
  induction lines using List.reverseRecOn with
  | nil => rfl
  | append_singleton lines k ih =>
    rw [headersEffect_concat, headerEffect, List.filter_append]
    by_cases hk : isContentLength k
    · simp [hk, not_decidesConnection hk, ih]
    · by_cases hd : decidesConnection k
      · simp [hk, hd]
      · simp [hk, hd, ih]

/-! ## The end of the head -/

@[simp] theorem block_nil : block [] = [] := rfl

@[simp] theorem block_cons (l : Bytes) (ls : List Bytes) :
    block (l :: ls) = l ++ crLf ++ block ls := rfl

theorem length_block_cons (l : Bytes) (ls : List Bytes) :
    (block (l :: ls)).length = l.length + 2 + (block ls).length := by
  simp [crLf]
  omega

theorem length_le_block {lines : List Bytes} (h : ∀ l ∈ lines, l ≠ []) :
    3 * lines.length ≤ (block lines).length := by
  induction lines with
  | nil => exact le_rfl
  | cons l ls ih =>
    have hl : 0 < l.length := List.length_pos_of_ne_nil (h l List.mem_cons_self)
    have := ih fun k hk => h k (List.mem_cons_of_mem _ hk)
    rw [length_block_cons, List.length_cons]
    omega

/-- The empty line after the header lines is the first CRLFCRLF. -/
theorem find_block {lines : List Bytes} (hne : lines ≠ [])
    (hlines : ∀ l ∈ lines, l ≠ [] ∧ cr ∉ l) (b : Bytes) :
    find crLfCrLf (block lines ++ crLf ++ b) = some ((block lines).length - 2) := by
  induction lines with
  | nil => exact absurd rfl hne
  | cons l ls ih =>
    obtain ⟨-, hcr⟩ := hlines l List.mem_cons_self
    cases ls with
    | nil =>
      have hsplit : block [l] ++ crLf ++ b = l ++ (crLfCrLf ++ b) := by simp [crLf, crLfCrLf]
      rw [hsplit, length_block_cons]
      exact find_after_notMem hcr
    | cons l' ls =>
      obtain ⟨hl', hcr'⟩ := hlines l' (by simp)
      obtain ⟨c, l'', rfl⟩ := List.exists_cons_of_ne_nil hl'
      have hc : c ≠ cr := fun hc => hcr' (by simp [hc])
      have hsplit : block (l :: (c :: l'') :: ls) ++ crLf ++ b =
          (l ++ crLf) ++ (block ((c :: l'') :: ls) ++ crLf ++ b) := by simp
      have hskip : ∀ j < (l ++ crLf).length,
          ¬ crLfCrLf <+: ((l ++ crLf) ++ (block ((c :: l'') :: ls) ++ crLf ++ b)).drop j := by
        intro j hj hp
        by_cases hjl : j < l.length
        · rw [List.append_assoc] at hp
          exact not_prefix_of_notMem hcr hjl hp
        · -- Behind the line's own CRLF the next line starts, with another byte.
          rw [List.append_assoc, List.drop_append, List.drop_of_length_le (by omega)] at hp
          simp only [List.length_append, crLf, List.length_cons, List.length_nil] at hj
          obtain hj0 | hj1 : j - l.length = 0 ∨ j - l.length = 1 := by omega
          · rw [hj0] at hp
            simp [crLf, crLfCrLf] at hp
            exact hc hp.1.symm
          · rw [hj1] at hp
            simp [crLf, crLfCrLf, cr, lf] at hp
      rw [hsplit, find_skip hskip, ih (by simp) fun l hl => hlines l (List.mem_cons_of_mem _ hl),
        length_block_cons l]
      simp only [Option.map_some, List.length_append, Option.some.injEq]
      have := length_block_cons (c :: l'') ls
      simp only [crLf, List.length_cons, List.length_nil] at this ⊢
      omega

namespace ResponseParser

/-- The header loop over well-formed lines applies them in order. -/
theorem headerLoop_lines (todo : List Bytes) (done b : Bytes) (r : Response) (fuel : ℕ)
    (hfuel : todo.length ≤ fuel)
    (hlines : ∀ l ∈ todo, colon ∈ l ∧ cr ∉ l ∧ (isContentLength l → IsSize (lineValue l))) :
    headerLoop (done ++ (block todo ++ crLf ++ b)) (done.length + (block todo).length - 2) fuel
      done.length r = (headersEffect todo r, none) := by
  induction todo generalizing done r fuel with
  | nil =>
    have hend : ¬ done.length < done.length + (block []).length - 2 := by
      rw [block_nil, List.length_nil]
      omega
    cases fuel with
    | zero => rfl
    | succ fuel =>
      rw [headerLoop, if_neg hend]
      rfl
  | cons l ls ih =>
    obtain ⟨hcolon, hcr, hsize⟩ := hlines l List.mem_cons_self
    have hlen : 0 < l.length := List.length_pos_of_mem hcolon
    cases fuel with
    | zero => simp at hfuel
    | succ fuel =>
      have hblock := length_block_cons l ls
      have hsplit : block (l :: ls) ++ crLf ++ b = l ++ (crLf ++ (block ls ++ crLf ++ b)) := by
        simp
      have hfind : findFrom crLf (done ++ (block (l :: ls) ++ crLf ++ b)) done.length =
          some (l.length + done.length) := by
        rw [findFrom, List.drop_left, hsplit]
        rw [show find crLf (l ++ (crLf ++ (block ls ++ crLf ++ b))) = some l.length from
          find_after_notMem hcr]
        rfl
      have hline : ((done ++ (block (l :: ls) ++ crLf ++ b)).drop done.length).take
          (l.length + done.length - done.length) = l := by
        rw [List.drop_left, hsplit, Nat.add_sub_cancel, List.take_left]
      rw [headerLoop, if_pos (by omega), hfind]
      simp only [if_neg (show ¬ l.length + done.length >
        done.length + (block (l :: ls)).length - 2 by omega), hline,
        parseHeaderLine_eq hcolon hsize]
      have hnext := ih (done ++ (l ++ crLf)) (headerEffect r l) fuel (by simpa using hfuel)
        fun k hk => hlines k (List.mem_cons_of_mem _ hk)
      have hdone' : (done ++ (l ++ crLf)).length = l.length + done.length + 2 := by
        simp [crLf]
        omega
      have hpos : l.length + done.length + 2 + (block ls).length - 2 =
          done.length + (block (l :: ls)).length - 2 := by omega
      have hpend : done ++ (l ++ crLf) ++ (block ls ++ crLf ++ b) =
          done ++ (block (l :: ls) ++ crLf ++ b) := by simp
      rw [hdone', hpos, hpend] at hnext
      exact hnext

/-! ## The parser on a head -/

/-- The parser in the body of the response with the head `h`, `b` being what followed it. -/
def afterHead (h : ResponseHead) (b : Bytes) : ResponseParser where
  state := .body
  response := { headersEffect h.lines { statusCode := h.statusCode } with headerDone := true }
  pending := b

/-- The parser behind the status line of `h`. -/
def afterStatusLine (h : ResponseHead) (b : Bytes) : ResponseParser where
  state := .headers
  response := { statusCode := h.statusCode }
  pending := b

/-- The status line alone decides what becomes of it. -/
theorem parseStatusLine_text {h : HeadText} (hversion : space ∉ h.version)
    (hdigits : isDigit h.d1 ∧ isDigit h.d2 ∧ isDigit h.d3) (hlen : 12 ≤ h.statusLine.length)
    (hcr : cr ∉ h.statusLine) (b : Bytes) :
    ({ pending := h.statusLine ++ crLf ++ b } : ResponseParser).parseStatusLine =
      ({ state := .headers, response := { statusCode := h.statusCode }, pending := b }, true) := by
  have hfind : find crLf (h.statusLine ++ crLf ++ b) = some h.statusLine.length := by
    rw [List.append_assoc]
    exact find_after_notMem hcr
  have hline : (h.statusLine ++ crLf ++ b).take h.statusLine.length = h.statusLine := by
    rw [List.append_assoc, List.take_left]
  have hdrop : (h.statusLine ++ crLf ++ b).drop (h.statusLine.length + 2) = b := by
    rw [List.append_assoc, List.drop_append]
    simp [crLf]
  have hhttp : h.statusLine.take 5 = ascii "HTTP/" := by
    rw [HeadText.statusLine, List.append_assoc, List.append_assoc,
      show 5 = (ascii "HTTP/").length from rfl]
    exact List.take_left
  have hnot : space ∉ ascii "HTTP/" ++ h.version := by
    rw [List.mem_append, not_or]
    exact ⟨by decide, hversion⟩
  have hsplit : h.statusLine =
      (ascii "HTTP/" ++ h.version) ++ ([space] ++ ([h.d1, h.d2, h.d3] ++ h.rest)) := by
    simp [HeadText.statusLine]
  have hspace : find [space] h.statusLine = some (ascii "HTTP/" ++ h.version).length := by
    rw [hsplit]
    exact find_after_notMem hnot
  have hcode : (h.statusLine.drop ((ascii "HTTP/" ++ h.version).length + 1)).take 3 =
      [h.d1, h.d2, h.d3] := by
    rw [hsplit, ← List.append_assoc, List.drop_left' (by simp; omega)]
    rfl
  have hlong : ¬ (ascii "HTTP/" ++ h.version).length + 4 > h.statusLine.length := by
    rw [hsplit]
    simp
    omega
  simp only [parseStatusLine, hfind, hline, hdrop, hspace, hcode, if_neg hlong,
    fromCharsInt_triple hdigits]
  rw [if_neg]
  · rfl
  · rw [hhttp]
    simp
    omega

theorem parseStatusLine_head (h : ResponseHead) (b : Bytes) :
    ({ pending := h.statusLine ++ crLf ++ b } : ResponseParser).parseStatusLine =
      (afterStatusLine h b, true) :=
  parseStatusLine_text h.version_noSpace h.digits h.long h.statusLine_noCrLf.1 b

theorem parseHeaders_head (h : ResponseHead)
    (hsize : ∀ l ∈ h.lines, isContentLength l → IsSize (lineValue l)) (b : Bytes) :
    (afterStatusLine h (block h.lines ++ crLf ++ b)).parseHeaders = (afterHead h b).parseBody := by
  have hfind := find_block h.lines_ne
    (fun l hl => ⟨List.ne_nil_of_mem (h.lines_colon l hl), (h.lines_noCrLf l hl).1⟩) b
  have hblock : 2 ≤ (block h.lines).length := by
    obtain ⟨l, ls, hl⟩ := List.exists_cons_of_ne_nil h.lines_ne
    rw [hl, length_block_cons]
    omega
  have hfuel : h.lines.length ≤ (block h.lines).length - 2 := by
    have := length_le_block fun l hl => List.ne_nil_of_mem (h.lines_colon l hl)
    have := List.length_pos_of_ne_nil h.lines_ne
    omega
  have hloop := headerLoop_lines h.lines [] b { statusCode := h.statusCode }
    ((block h.lines).length - 2) hfuel
    fun l hl => ⟨h.lines_colon l hl, (h.lines_noCrLf l hl).1, hsize l hl⟩
  simp only [List.nil_append, List.length_nil, Nat.zero_add] at hloop
  have hdrop : (block h.lines ++ crLf ++ b).drop ((block h.lines).length - 2 + 4) = b := by
    rw [show (block h.lines).length - 2 + 4 = (block h.lines ++ crLf).length by
      simp [crLf]; omega]
    exact List.drop_left
  simp only [parseHeaders, afterStatusLine, hfind, hloop, hdrop]
  rfl

/-- **The parser fed a head and the bytes behind it.** -/
theorem feed_head (h : ResponseHead)
    (hsize : ∀ l ∈ h.lines, isContentLength l → IsSize (lineValue l)) (b : Bytes) :
    (({} : ResponseParser).feed (h.bytes ++ b)).1 = (afterHead h b).parseBody.1 := by
  have hne : h.bytes ++ b ≠ [] := by simp [HeadText.bytes, crLf]
  have hmore : ({} : ResponseParser).more (h.bytes ++ b) =
      { pending := h.statusLine ++ crLf ++ (block h.lines ++ crLf ++ b) } := by
    simp [more, HeadText.bytes]
  rw [feed_statusLine rfl hne, hmore]
  have hnext : ({ pending := h.statusLine ++ crLf ++ (block h.lines ++ crLf ++ b) } :
      ResponseParser).feedStatusLine =
      (afterStatusLine h (block h.lines ++ crLf ++ b)).feedHeaders := by
    rw [feedStatusLine, parseStatusLine_head]
    simp [afterStatusLine]
  rw [hnext, feedHeaders_of_parseBody (parseHeaders_head h hsize b)]

/-- **The parser fed less than a head** is still before the body. -/
theorem feed_short (h : ResponseHead) {fed : Bytes} (hfed : fed <+: h.bytes)
    (hlt : fed.length < h.bytes.length) :
    (({} : ResponseParser).feed fed).1.done = false := by
  rcases eq_or_ne fed [] with rfl | hne
  · rfl
  obtain ⟨t, ht⟩ := hfed
  rw [feed_statusLine rfl hne]
  cases hfind : find crLf fed with
  | none => simp [feedStatusLine, parseStatusLine, more, hfind, done]
  | some i =>
    -- The line end found is the status line's, so what follows is a part of the header block.
    have hline : find crLf h.bytes = some h.statusLine.length := by
      rw [HeadText.bytes, List.append_assoc, List.append_assoc]
      exact find_after_notMem h.statusLine_noCrLf.1
    have hi : i = h.statusLine.length := by
      have := find_append hfind t
      rw [ht, hline] at this
      exact (Option.some.inj this).symm
    have hlong : (h.statusLine ++ crLf).length ≤ fed.length := by
      have := find_bound hfind
      simp only [List.length_append, ← hi]
      exact this
    have hbytes : fed ++ t = (h.statusLine ++ crLf) ++ (block h.lines ++ crLf) := by
      rw [ht, HeadText.bytes]
      simp
    obtain ⟨b, hb⟩ : h.statusLine ++ crLf <+: fed :=
      List.prefix_of_prefix_length_le (hbytes ▸ List.prefix_append _ _) (List.prefix_append fed t)
        hlong
    have hrest : b ++ t = block h.lines ++ crLf := by
      rw [← hb, List.append_assoc] at hbytes
      exact List.append_cancel_left hbytes
    have hmore : ({} : ResponseParser).more fed = { pending := h.statusLine ++ crLf ++ b } := by
      simp [more, hb]
    have hnone : find crLfCrLf b = none := by
      cases hb' : find crLfCrLf b with
      | none => rfl
      | some k =>
        have hblock := find_block h.lines_ne
          (fun l hl => ⟨List.ne_nil_of_mem (h.lines_colon l hl), (h.lines_noCrLf l hl).1⟩) []
        have hk := find_append hb' t
        rw [hrest, ← List.append_nil (block h.lines ++ crLf), hblock] at hk
        have hbound := find_bound hb'
        have hlen := congrArg List.length hbytes
        have hlen' := congrArg List.length hrest
        have hfed := congrArg List.length ht
        simp only [List.length_append, crLf, crLfCrLf, List.length_cons, List.length_nil,
          Option.some.injEq] at hbound hlen hlen' hfed hk
        omega
    rw [hmore, feedStatusLine, parseStatusLine_head]
    simp [feedHeaders, parseHeaders, afterStatusLine, hnone, done]

/-! ## Framing -/

section Behind

variable (h : ResponseHead) (b : Bytes)

@[simp] theorem afterHead_body : (afterHead h b).body = [] := rfl

@[simp] theorem afterHead_pending : (afterHead h b).pending = b := rfl

theorem afterHead_statusCode : (afterHead h b).response.statusCode = h.statusCode :=
  (headersEffect_statusCode h.lines _).1

theorem afterHead_done : (afterHead h b).done = false := (headersEffect_statusCode h.lines _).2

theorem afterHead_keepAlive : (afterHead h b).response.keepAlive = h.keepAlive :=
  headersEffect_keepAlive h.lines _

theorem afterHead_contentLength {n : ℕ} (hn : h.contentLength? = some n) :
    (afterHead h b).response.hasContentLength = true ∧
      (afterHead h b).response.contentLength = n := by
  obtain ⟨l, hl, rfl⟩ := Option.map_eq_some_iff.1 hn
  exact (headersEffect_contentLength h.lines _).2 l hl

theorem afterHead_noContentLength (hno : ∀ l ∈ h.lines, ¬ isContentLength l) :
    (afterHead h b).response.hasContentLength = false := by
  refine (headersEffect_contentLength h.lines _).1 ?_
  rw [List.filter_eq_nil_iff.2 hno]
  rfl

end Behind

/-- What was fed is less than the head, or the head and a part of what is behind it. -/
theorem short_or_behind (h : ResponseHead) {body fed : Bytes} (hfed : fed <+: h.bytes ++ body) :
    (fed <+: h.bytes ∧ fed.length < h.bytes.length) ∨ ∃ b, fed = h.bytes ++ b ∧ b <+: body := by
  by_cases hlt : fed.length < h.bytes.length
  · exact Or.inl ⟨List.prefix_of_prefix_length_le hfed (List.prefix_append _ _) (le_of_lt hlt), hlt⟩
  · obtain ⟨b, rfl⟩ : h.bytes <+: fed :=
      List.prefix_of_prefix_length_le (List.prefix_append _ _) hfed (by omega)
    exact Or.inr ⟨b, rfl, (List.prefix_append_right_inj _).1 hfed⟩

/-- **Framing.** Fed any pieces of a head and the bytes behind it, the parser completes the
message at the byte the last `Content-Length` says, and at the end of the connection when
there is none. -/
theorem framing (h : ResponseHead) (body : Bytes) (cs : List Bytes)
    (hcs : cs.flatten <+: h.bytes ++ body)
    (hsize : ∀ l ∈ h.lines, isContentLength l → IsSize (lineValue l)) :
    (∀ n, h.contentLength? = some n →
      ((feedAll {} cs).1.done ↔ h.bytes.length + n ≤ cs.flatten.length) ∧
      ((feedAll {} cs).1.done →
        (feedAll {} cs).1.response.statusCode = h.statusCode ∧
        (feedAll {} cs).1.response.contentLength = n ∧
        (feedAll {} cs).1.body = body.take n ∧
        (feedAll {} cs).1.response.keepAlive = h.keepAlive)) ∧
    ((∀ l ∈ h.lines, ¬ isContentLength l) →
      (feedAll {} cs).1.done = false ∧
      (h.bytes.length ≤ cs.flatten.length →
        (feedAll {} cs).1.markEof.done ∧
        (feedAll {} cs).1.markEof.response.statusCode = h.statusCode ∧
        (feedAll {} cs).1.markEof.body = cs.flatten.drop h.bytes.length ∧
        (feedAll {} cs).1.markEof.response.keepAlive = h.keepAlive)) := by
  have hsettle : (feedAll {} cs).1.settle = (({} : ResponseParser).feed cs.flatten).1.settle :=
    feedAll_flatten {} true cs
  have hsame := same_of_settle hsettle
  have hsame_eof :
      Same (feedAll {} cs).1.markEof (({} : ResponseParser).feed cs.flatten).1.markEof :=
    same_of_settle (by rw [← markEof_settle, ← markEof_settle, hsettle])
  rw [hsame.done, hsame.response, hsame.body, hsame_eof.done, hsame_eof.response, hsame_eof.body]
  rcases short_or_behind h hcs with ⟨hpre, hlt⟩ | ⟨b, hb, hbody⟩
  · rw [feed_short h hpre hlt]
    exact ⟨fun n _ => ⟨⟨fun hd => absurd hd Bool.false_ne_true, fun hle => by omega⟩,
      fun hd => absurd hd Bool.false_ne_true⟩, fun _ => ⟨rfl, fun hle => by omega⟩⟩
  rw [hb, feed_head h hsize b, parseBody_eq]
  constructor
  · intro n hn
    obtain ⟨hhas, hlen⟩ := afterHead_contentLength h b hn
    simp only [hhas, hlen, afterHead_body, afterHead_pending, List.length_nil, Nat.zero_add,
      Bool.true_eq_false, false_or, Nat.zero_le, if_true]
    by_cases hlt : b.length < n
    · rw [if_pos hlt]
      have hd : (afterHead h b).waitBody.done = false := afterHead_done h b
      rw [hd]
      refine ⟨⟨fun hd => absurd hd Bool.false_ne_true, fun hle => ?_⟩,
        fun hd => absurd hd Bool.false_ne_true⟩
      rw [List.length_append] at hle
      omega
    · rw [if_neg hlt]
      refine ⟨⟨fun _ => ?_, fun _ => rfl⟩, fun _ => ⟨afterHead_statusCode h b, hlen, ?_,
        afterHead_keepAlive h b⟩⟩
      · rw [List.length_append]
        omega
      · obtain ⟨t, rfl⟩ := hbody
        simp only [fillBody, afterHead_body, afterHead_pending, hlen, List.length_nil,
          Nat.sub_zero, List.nil_append]
        rw [List.take_append_of_le_length (by omega)]
  · intro hno
    have hhas : (headersEffect h.lines { statusCode := h.statusCode }).hasContentLength = false :=
      afterHead_noContentLength h b hno
    rw [if_pos (Or.inl (afterHead_noContentLength h b hno))]
    have hmark : (afterHead h b).waitBody.markEof =
        { (afterHead h b).waitBody with
          response := { (afterHead h b).response with
            contentLength := b.length
            messageComplete := true }
          state := .done } := by
      simp [markEof, waitBody, afterHead, hhas]
    refine ⟨afterHead_done h b, fun _ => ?_⟩
    rw [hmark]
    refine ⟨rfl, afterHead_statusCode h b, ?_, afterHead_keepAlive h b⟩
    simp [waitBody]

/-- A head with two lengths, of which the last counts. -/
def sampleHead : ResponseHead where
  version := ascii "1.1"
  d1 := 50
  d2 := 48
  d3 := 48
  rest := ascii " OK"
  lines := [ascii "Content-Length: 10", ascii "Connection: Close", ascii "content-LENGTH:2 "]
  version_noSpace := by decide
  digits := by decide
  long := by decide
  statusLine_noCrLf := by decide
  lines_ne := by decide
  lines_colon := by decide
  lines_noCrLf := by decide

theorem framing_sample :
    (feedAll {} [sampleHead.bytes ++ ascii "o", ascii "kay"]).1.body = ascii "ok" ∧
      (feedAll {} [sampleHead.bytes ++ ascii "o", ascii "kay"]).1.response.keepAlive = false := by
  obtain ⟨hdone, hthen⟩ := (framing sampleHead (ascii "okay")
    [sampleHead.bytes ++ ascii "o", ascii "kay"] (by decide +kernel) (by decide +kernel)).1 2
    (by decide +kernel)
  obtain ⟨-, -, hbody, hkeep⟩ := hthen (hdone.2 (by decide +kernel))
  exact ⟨hbody, hkeep⟩

end ResponseParser

end TitanBench
