import TitanBench.HttpFraming
import TitanBench.Lib.Pieces

/-!
# The request, line by line

A receiver cuts the request at CRLF and looks for the empty line. `BuildGetRequest` puts each line
together with its CRLF, so the lines are found again as long as none of them contains one.

* `requestLines` — the lines of the request, the two automatic headers included.
* `buildGetRequest_eq` — the request is the block of these lines and an empty line.
* `endsOnce_block` — when the empty line is the only one.
* `request_decoded` — a request of plain texts is decoded line by line.
-/

namespace TitanBench

open Search

/-- The path as it stands in the request. -/
def requestPath (path : Bytes) : Bytes :=
  let path := if path = [] then [slash] else path
  if path.head? ≠ some slash then slash :: path else path

theorem requestPath_eq (path : Bytes) :
    requestPath path = if path.head? = some slash then path else slash :: path := by
  cases path with
  | nil => rfl
  | cons b path => by_cases h : b = slash <;> simp [requestPath, h]

def requestLine (path : Bytes) : Bytes := ascii "GET " ++ requestPath path ++ ascii " HTTP/1.1"

def hostLine (host : Bytes) : Bytes := ascii "Host: " ++ host

def headerLine (h : Header) : Bytes := h.key ++ ascii ": " ++ h.value

/-- The key and the value of a line, which the first colon with a space separates. -/
def splitHeader (line : Bytes) : Option (Bytes × Bytes) :=
  (find (ascii ": ") line).map fun i => (line.take i, line.drop (i + 2))

/-- A header with this name is among the given ones, in whatever case it is written. -/
def Given (headers : List Header) (name : Bytes) : Prop :=
  ∃ h ∈ headers, toLowerAscii h.key = name

instance (headers : List Header) (name : Bytes) : Decidable (Given headers name) := by
  unfold Given
  infer_instance

/-- The headers that are added to the given ones. -/
def automaticLines (headers : List Header) (keepAlive : Bool) : List Bytes :=
  (if Given headers (ascii "connection") then []
    else [ascii "Connection: " ++ ascii (if keepAlive then "keep-alive" else "close")]) ++
  if Given headers (ascii "accept") then [] else [ascii "Accept: */*"]

def requestLines (r : Request) : List Bytes :=
  requestLine r.path :: hostLine r.host :: r.headers.map headerLine ++
    automaticLines r.headers r.keepAlive

theorem headerExists_iff (headers : List Header) :
    headerExists headers (ascii "accept") = true ↔ Given headers (ascii "accept") := by
  have hlower : toLowerAscii (ascii "accept") = ascii "accept" := by decide
  simp [headerExists, Given, hlower]

theorem block_append (ls ls' : List Bytes) : block (ls ++ ls') = block ls ++ block ls' :=
  List.flatMap_append

/-- **The request is its lines, each with its CRLF, and an empty line.** -/
theorem buildGetRequest_eq (r : Request) :
    buildGetRequest r = block (requestLines r) ++ crLf := by
  have hconnection : (r.headers.any fun h => toLowerAscii h.key == ascii "connection") = true ↔
      Given r.headers (ascii "connection") := by simp [Given]
  have haccept := headerExists_iff r.headers
  have hheaders : r.headers.flatMap (fun h => h.key ++ ascii ": " ++ h.value ++ crLf) =
      block (r.headers.map headerLine) := by
    simp [block, headerLine, List.flatMap_map]
  unfold buildGetRequest requestLines automaticLines
  simp only [hconnection, haccept, hheaders]
  by_cases hc : Given r.headers (ascii "connection") <;>
    by_cases ha : Given r.headers (ascii "accept") <;>
    simp [hc, ha, block_append, requestLine, requestPath, hostLine]

/-! ## Cutting at CRLF -/

theorem crLf_unbordered : Unbordered crLf := by
  refine ⟨by decide, fun k hk hlt => ?_⟩
  obtain rfl : k = 1 := by
    simp only [crLf, List.length_cons, List.length_nil] at hlt
    omega
  decide

theorem pieces_line {line : Bytes} (h : cr ∉ line) : pieces crLf line = [line] := by
  apply pieces_of_absent
  intro hin
  exact h (hin.subset (by simp [crLf]))

theorem pieces_block (ls : List Bytes) (rest : Bytes) :
    pieces crLf (block ls ++ rest) = ls.flatMap (pieces crLf) ++ pieces crLf rest := by
  induction ls with
  | nil => rfl
  | cons l ls ih =>
    rw [block_cons, List.append_assoc, List.append_assoc, pieces_append_sep crLf_unbordered, ih,
      List.flatMap_cons, List.append_assoc]

/-! ## The empty line -/

/-- CRLFCRLF occurs at the very end, and nowhere else. -/
def EndsOnce (s : Bytes) : Prop := ∀ j, crLfCrLf <+: s.drop j ↔ j + 4 = s.length

theorem endsOnce_iff_find {s : Bytes} (hlen : 4 ≤ s.length) :
    EndsOnce s ↔ find crLfCrLf s = some (s.length - 4) := by
  constructor
  · intro h
    refine find_eq_some_iff.mpr ⟨Nat.sub_le _ _, (h _).mpr (by omega), fun j hj hp => ?_⟩
    have := (h j).mp hp
    omega
  · intro h j
    obtain ⟨-, hstart, hfirst⟩ := find_eq_some_iff.mp h
    constructor
    · intro hp
      have hle := hp.length_le
      simp only [List.length_drop, crLfCrLf, List.length_cons, List.length_nil] at hle
      by_contra hne
      exact hfirst j (by omega) hp
    · intro hj
      obtain rfl : j = s.length - 4 := by omega
      exact hstart

/-- Text that ends with a CRLF, and a second one. -/
theorem endsOnce_iff (t : Bytes) :
    EndsOnce (t ++ crLf ++ crLf) ↔ ¬ crLfCrLf <:+: t ++ crLf := by
  have hlength : ∀ t : Bytes, (t ++ crLf).length = t.length + 2 := fun t => by simp [crLf]
  have hlen := (hlength (t ++ crLf)).trans (congrArg (· + 2) (hlength t))
  constructor
  · intro hends hin
    obtain ⟨j, -, hp⟩ := exists_start hin
    have hle := hp.length_le
    simp only [List.length_drop, hlength, crLfCrLf, List.length_cons, List.length_nil] at hle
    have hin : j + crLfCrLf.length ≤ (t ++ crLf).length := by
      rw [hlength]
      simp only [crLfCrLf, List.length_cons, List.length_nil]
      omega
    have := (hends j).mp ((prefix_drop_append hin).mpr hp)
    omega
  · intro hno j
    constructor
    · intro hstart
      have hle := hstart.length_le
      simp only [List.length_drop, hlen, crLfCrLf, List.length_cons, List.length_nil] at hle
      rw [hlen]
      by_contra hne
      have hin : j + 4 ≤ (t ++ crLf).length ∨ j + 1 = t.length := by
        rw [hlength]
        omega
      rcases hin with hin | hj
      · have hstart' := (@prefix_drop_append _ crLfCrLf _ _ _ hin).mp hstart
        exact hno (infix_of_start hstart')
      · -- The second byte would be the CR behind the text.
        have htail := hstart.drop 1
        rw [List.drop_drop, hj, List.append_assoc, List.drop_left] at htail
        exact absurd htail (by decide)
    · intro hj
      obtain rfl : j = t.length := by omega
      rw [List.append_assoc, List.drop_left]
      exact List.prefix_rfl

theorem exists_block_eq {ls : List Bytes} (h : ls ≠ []) : ∃ t, block ls = t ++ crLf := by
  refine ⟨block ls.dropLast ++ ls.getLast h, ?_⟩
  conv_lhs => rw [← List.dropLast_append_getLast h, block_append]
  simp [block]

/-- **The empty line is the only one** if no line is empty but, perhaps, the very first. -/
theorem endsOnce_block {ls : List Bytes} (h : ls ≠ []) :
    EndsOnce (block ls ++ crLf) ↔ [] ∉ (ls.flatMap (pieces crLf)).tail := by
  obtain ⟨t, ht⟩ := exists_block_eq h
  have hpieces : pieces crLf (block ls) = ls.flatMap (pieces crLf) ++ [[]] := by
    simpa using pieces_block ls []
  have hne : ls.flatMap (pieces crLf) ≠ [] := by
    cases ls with
    | nil => exact absurd rfl h
    | cons l ls => simp [pieces_ne_nil]
  have hdouble : crLfCrLf = crLf ++ crLf := rfl
  rw [ht, endsOnce_iff, ← ht, hdouble, double_infix_iff crLf_unbordered, hpieces,
    List.tail_append_of_ne_nil hne, List.dropLast_concat]

/-! ## Decoding -/

/-- Neither CR nor LF. -/
def Inline (s : Bytes) : Prop := cr ∉ s ∧ lf ∉ s

instance (s : Bytes) : Decidable (Inline s) := inferInstanceAs (Decidable (_ ∧ _))

structure Request.Plain (r : Request) : Prop where
  host : Inline r.host
  path : Inline r.path
  key : ∀ h ∈ r.headers, Inline h.key
  value : ∀ h ∈ r.headers, Inline h.value
  noColon : ∀ h ∈ r.headers, colon ∉ h.key

theorem Inline.append {s t : Bytes} (hs : Inline s) (ht : Inline t) : Inline (s ++ t) := by
  constructor
  · simp [hs.1, ht.1]
  · simp [hs.2, ht.2]

theorem requestPath_inline {path : Bytes} (h : Inline path) : Inline (requestPath path) := by
  have hslash : Inline [slash] := by decide
  rw [requestPath_eq]
  split_ifs
  · exact h
  · exact hslash.append h

theorem automaticLines_inline (headers : List Header) (keepAlive : Bool) :
    ∀ line ∈ automaticLines headers keepAlive, Inline line ∧ line ≠ [] := by
  intro line hline
  have hmem : line = ascii "Connection: " ++ ascii (if keepAlive then "keep-alive" else "close") ∨
      line = ascii "Accept: */*" := by
    unfold automaticLines at hline
    split_ifs at hline <;> simp_all
  rcases hmem with rfl | rfl
  · cases keepAlive <;> decide
  · decide

theorem headerLine_inline {r : Request} (hr : r.Plain) {h : Header} (hh : h ∈ r.headers) :
    Inline (headerLine h) :=
  ((hr.key h hh).append (by decide)).append (hr.value h hh)

theorem requestLines_inline {r : Request} (hr : r.Plain) :
    ∀ line ∈ requestLines r, Inline line ∧ line ≠ [] := by
  intro line hline
  simp only [requestLines, List.cons_append, List.mem_cons, List.mem_append, List.mem_map] at hline
  rcases hline with rfl | rfl | ⟨h, hh, rfl⟩ | hline
  · have hget : Inline (ascii "GET ") := by decide
    refine ⟨(hget.append (requestPath_inline hr.path)).append (by decide), ?_⟩
    simp [requestLine, ascii]
  · have hhost : Inline (ascii "Host: ") := by decide
    exact ⟨hhost.append hr.host, by simp [hostLine, ascii]⟩
  · exact ⟨headerLine_inline hr hh, by simp [headerLine, ascii]⟩
  · exact automaticLines_inline _ _ line hline

theorem splitHeader_headerLine {h : Header} (hcolon : colon ∉ h.key) :
    splitHeader (headerLine h) = some (h.key, h.value) := by
  have hfind : find (ascii ": ") (headerLine h) = some h.key.length := by
    rw [headerLine, List.append_assoc]
    exact find_after_notMem hcolon
  have hlen : h.key.length + 2 = (h.key ++ ascii ": ").length := by simp [ascii]
  rw [splitHeader, hfind, Option.map_some, hlen, headerLine, List.drop_left, List.append_assoc,
    List.take_left]

theorem flatMap_pieces {ls : List Bytes} (h : ∀ line ∈ ls, Inline line) :
    ls.flatMap (pieces crLf) = ls := by
  induction ls with
  | nil => rfl
  | cons l ls ih =>
    have hl := pieces_line (h l List.mem_cons_self).1
    rw [List.flatMap_cons, hl, ih fun line hline => h line (List.mem_cons_of_mem l hline),
      List.singleton_append]

/-- **The request can be decoded.** Cut at CRLF it gives its lines, the empty line and nothing
behind that. The first colon with a space of a header line gives its key and its value back, and
the first CRLFCRLF is at the very end. -/
theorem request_decoded (r : Request) (hr : r.Plain) :
    pieces crLf (buildGetRequest r) = requestLines r ++ [[], []] ∧
      (r.headers.map headerLine).map splitHeader =
        r.headers.map (fun h => some (h.key, h.value)) ∧
      find crLfCrLf (buildGetRequest r) = some ((buildGetRequest r).length - 4) := by
  have hlines := requestLines_inline hr
  have hpieces := flatMap_pieces fun line hline => (hlines line hline).1
  have hne : requestLines r ≠ [] := by simp [requestLines]
  rw [buildGetRequest_eq]
  refine ⟨?_, ?_, ?_⟩
  · have hend : pieces crLf crLf = [[], []] := by decide
    rw [pieces_block, hpieces, hend]
  · rw [List.map_map]
    apply List.map_congr_left
    intro h hh
    exact splitHeader_headerLine (hr.noColon h hh)
  · have hends : EndsOnce (block (requestLines r) ++ crLf) := by
      rw [endsOnce_block hne, hpieces]
      intro hmem
      exact (hlines [] (List.mem_of_mem_tail hmem)).2 rfl
    refine (endsOnce_iff_find ?_).mp hends
    obtain ⟨t, ht⟩ := exists_block_eq hne
    simp [ht, crLf]

/-- A request for `a` with a header that stands for the automatic one. -/
theorem request_decoded_accept :
    pieces crLf (buildGetRequest ⟨ascii "h", ascii "a", [⟨ascii "ACCEPT", ascii "x: y"⟩], false⟩) =
      [ascii "GET /a HTTP/1.1", ascii "Host: h", ascii "ACCEPT: x: y", ascii "Connection: close",
        [], []] :=
  (request_decoded ⟨ascii "h", ascii "a", [⟨ascii "ACCEPT", ascii "x: y"⟩], false⟩
    ⟨by decide, by decide, by decide, by decide, by decide⟩).1.trans (by decide)

end TitanBench
