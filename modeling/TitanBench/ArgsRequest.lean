import TitanBench.Args
import TitanBench.EngineSlots
import TitanBench.HttpRequest

/-!
# The request of an accepted configuration

`ValidateConfig` checks that there is a host and completes the path, and `BuildGetRequest` puts
both into the request as they are. Whether the result is one well-formed request depends on what
is written in them.

* `WellFormed` — one head, one Host line, and a request line of three words.
* `CleanTarget` — what host and path must look like.
* `packet_wellFormed_iff` — the one is the case exactly when the other is.
-/

namespace TitanBench

open Search

/-- What is sent for a configuration with protocol `http` or `https`. -/
def packet (cfg : Config) : Bytes :=
  if cfg.protocol = .https then buildGetRequest (Slot.request cfg) else buildPayload cfg

/-- A line with the name `Host`, as `ParseHeaders` reads names. -/
def isHostLine (line : Bytes) : Bool :=
  (find [colon] line).any fun c => ResponseParser.headerKey line c == ascii "host"

/-- The text before the first CRLF. -/
def firstPiece (s : Bytes) : Bytes := (pieces crLf s).headD []

structure WellFormed (s : Bytes) : Prop where
  /-- The first CRLFCRLF is at the very end. -/
  head : find crLfCrLf s = some (s.length - 4)
  host : (pieces crLf s).countP isHostLine = 1
  target : ∃ p, firstPiece s = ascii "GET " ++ p ++ ascii " HTTP/1.1"
  spaces : (firstPiece s).count space = 2

/-- A host and a path that are one target. -/
structure CleanTarget (host path : Bytes) : Prop where
  pathGoesOn : ¬ crLfCrLf <:+: path
  hostGoesOn : ¬ crLfCrLf <:+: host ++ crLf
  noHostLine : ∀ line ∈ (pieces crLf path).tail ++ (pieces crLf host).tail, isHostLine line = false
  /-- Without a space, if there is no CRLF. Otherwise the part before the first CRLF completes the
  request line on its own. -/
  target :
    if crLf <:+: path then ∃ q, firstPiece path = q ++ ascii " HTTP/1.1" ∧ space ∉ q
    else space ∉ path

theorem packet_eq {cfg : Config} (h : cfg.protocol = .http ∨ cfg.protocol = .https) :
    packet cfg = buildGetRequest (Slot.request cfg) := by
  rcases h with h | h
  · simp [packet, buildPayload, Slot.request, h]
  · simp [packet, h]

/-! ## Host lines -/

theorem headerKey_head {b : UInt8} (hb : isSpace b = false) (s : Bytes) (c : ℕ) :
    (ResponseParser.headerKey (b :: s) (c + 1)).head? = some (toLowerByte b) := by
  have hdrop : (b :: s.take c).dropWhile isSpace = b :: s.take c := by simp [hb]
  have htrim : trimAscii (b :: s.take c) <+: b :: s.take c := by
    rw [trimAscii, hdrop]
    exact List.rdropWhile_prefix _ _
  rw [ResponseParser.headerKey, List.take_succ_cons, toLowerAscii]
  cases h : trimAscii (b :: s.take c) with
  | nil =>
    rw [trimAscii, hdrop, List.rdropWhile_eq_nil_iff] at h
    exact absurd (h b List.mem_cons_self) (by simp [hb])
  | cons b' t =>
    rw [h] at htrim
    simp [(List.cons_prefix_cons.mp htrim).1]

theorem isHostLine_get (s : Bytes) : isHostLine (ascii "GET " ++ s) = false := by
  have hcons : ascii "GET " ++ s = 71 :: (ascii "ET " ++ s) := rfl
  rw [isHostLine, hcons]
  cases hfind : find [colon] (71 :: (ascii "ET " ++ s)) with
  | none => rfl
  | some c =>
    cases c with
    | zero =>
      have hstart := (find_eq_some_iff.mp hfind).2.1
      exact absurd (List.cons_prefix_cons.mp hstart).1 (by decide)
    | succ c =>
      have hhead := headerKey_head (by decide : isSpace 71 = false) (ascii "ET " ++ s) c
      simp only [Option.any_some, beq_eq_false_iff_ne]
      intro hkey
      rw [hkey] at hhead
      exact absurd hhead (by decide)

theorem isHostLine_host (s : Bytes) : isHostLine (ascii "Host: " ++ s) = true := by
  have hfind : find [colon] (ascii "Host: " ++ s) = some 4 :=
    @find_after_notMem _ _ colon [] (ascii "Host") (space :: s) (by decide)
  have hkey : ResponseParser.headerKey (ascii "Host: " ++ s) 4 = ascii "host" := by
    have htake : (ascii "Host: " ++ s).take 4 = ascii "Host" := rfl
    rw [ResponseParser.headerKey, htake]
    decide
  simp [isHostLine, hfind, hkey]

theorem isHostLine_append {t : Bytes} (ht : colon ∉ t) (line : Bytes) :
    isHostLine (line ++ t) = isHostLine line := by
  cases hfind : find [colon] line with
  | none =>
    have hno : find [colon] (line ++ t) = none := by
      rw [find_eq_none_iff_absent, List.singleton_infix_iff] at hfind ⊢
      simp [hfind, ht]
    simp [isHostLine, hfind, hno]
  | some c =>
    have hle := (find_eq_some_iff.mp hfind).1
    simp [isHostLine, hfind, find_append hfind, ResponseParser.headerKey,
      List.take_append_of_le_length hle]

/-! ## The lines of the request -/

theorem pieces_get {path p : Bytes} {ps : List Bytes} (h : pieces crLf path = p :: ps) :
    pieces crLf (ascii "GET " ++ path) = (ascii "GET " ++ p) :: ps :=
  pieces_prepend crLf_unbordered (infix_of_notMem_left (by decide)) h

theorem pieces_host {host p : Bytes} {ps : List Bytes} (h : pieces crLf host = p :: ps) :
    pieces crLf (hostLine host) = (ascii "Host: " ++ p) :: ps :=
  pieces_prepend crLf_unbordered (infix_of_notMem_left (by decide)) h

/-- A path without a CRLF stays on the request line. -/
theorem pieces_requestLine_single {path p : Bytes} (h : pieces crLf (requestPath path) = [p]) :
    pieces crLf (requestLine path) = [ascii "GET " ++ p ++ ascii " HTTP/1.1"] :=
  @pieces_append _ _ crLf _ _ crLf_unbordered
    (@infix_of_notMem_right _ [cr] _ lf (by decide)) _ [] (pieces_get h)

/-- A CRLF in the path ends the request line, and the version comes behind the last one. -/
theorem pieces_requestLine_cut {path p q : Bytes} {ps : List Bytes}
    (h : pieces crLf (requestPath path) = p :: (ps ++ [q])) :
    pieces crLf (requestLine path) =
      (ascii "GET " ++ p) :: (ps ++ [q ++ ascii " HTTP/1.1"]) :=
  @pieces_append _ _ crLf _ _ crLf_unbordered
    (@infix_of_notMem_right _ [cr] _ lf (by decide)) _ ((ascii "GET " ++ p) :: ps) (pieces_get h)

/-- A text behind `GET ` is a path and the version exactly when it looks like that. -/
theorem words_iff (text : Bytes) :
    ((∃ p, ascii "GET " ++ text = ascii "GET " ++ p ++ ascii " HTTP/1.1") ∧
      (ascii "GET " ++ text).count space = 2) ↔
    ∃ q, text = q ++ ascii " HTTP/1.1" ∧ space ∉ q := by
  have hget : (ascii "GET ").count space = 1 := by decide
  have hversion : (ascii " HTTP/1.1").count space = 1 := by decide
  have hcount : ∀ q, (ascii "GET " ++ (q ++ ascii " HTTP/1.1")).count space = 2 ↔ space ∉ q := by
    intro q
    rw [List.count_append, List.count_append, hget, hversion, ← List.count_eq_zero]
    omega
  simp only [List.append_assoc, List.append_cancel_left_eq]
  constructor
  · rintro ⟨⟨q, rfl⟩, htwo⟩
    exact ⟨q, rfl, (hcount q).mp htwo⟩
  · rintro ⟨q, rfl, hq⟩
    exact ⟨⟨q, rfl⟩, (hcount q).mpr hq⟩

/-- How the pieces of the request line depend on the path. -/
structure LineOf (path : Bytes) (line : List Bytes) : Prop where
  nil_mem : [] ∈ line.tail ↔ [] ∈ (pieces crLf path).tail.dropLast
  hosts : line.countP isHostLine = (pieces crLf path).tail.countP isHostLine
  words : ((∃ p, line.headD [] = ascii "GET " ++ p ++ ascii " HTTP/1.1") ∧
      (line.headD []).count space = 2) ↔
    if crLf <:+: path then ∃ q, firstPiece path = q ++ ascii " HTTP/1.1" ∧ space ∉ q
    else space ∉ path

theorem requestLine_lineOf (path : Bytes) :
    LineOf (requestPath path) (pieces crLf (requestLine path)) := by
  have hversion : colon ∉ ascii " HTTP/1.1" := by decide
  obtain ⟨p, t, hpieces⟩ := List.exists_cons_of_ne_nil (pieces_ne_nil crLf (requestPath path))
  rcases List.eq_nil_or_concat t with rfl | ⟨ps, q, rfl⟩
  · obtain ⟨hno, hp⟩ := of_pieces_eq_singleton crLf_unbordered hpieces
    have hwords := words_iff (p ++ ascii " HTTP/1.1")
    rw [pieces_requestLine_single hpieces]
    constructor
    · simp [hpieces]
    · simp [hpieces, isHostLine_get]
    · rw [if_neg hno, hp]
      simpa using hwords
  · rw [List.concat_eq_append] at hpieces
    have hin : crLf <:+: requestPath path := by
      by_contra hno
      rw [pieces_of_absent hno] at hpieces
      simp at hpieces
    rw [pieces_requestLine_cut hpieces]
    constructor
    · simp [hpieces, ascii]
    · simp [hpieces, isHostLine_get, isHostLine_append hversion]
    · rw [if_pos hin, firstPiece, hpieces]
      exact words_iff p

/-! ## The whole request -/

/-- The lines that are the same in every request. -/
def fixedLines : List Bytes := [ascii "Connection: keep-alive", ascii "Accept: */*"]

theorem requestLines_request (cfg : Config) :
    requestLines (Slot.request cfg) = requestLine cfg.path :: hostLine cfg.host :: fixedLines := by
  simp [requestLines, automaticLines, Given, Slot.request, fixedLines, ascii]

theorem fixedLines_pieces : fixedLines.flatMap (pieces crLf) = fixedLines := by decide

theorem packet_pieces (cfg : Config) :
    pieces crLf (buildGetRequest (Slot.request cfg)) =
      pieces crLf (requestLine cfg.path) ++ (pieces crLf (hostLine cfg.host) ++
        (fixedLines ++ [[], []])) := by
  have hend : pieces crLf crLf = [[], []] := by decide
  rw [buildGetRequest_eq, pieces_block, requestLines_request, hend, List.flatMap_cons,
    List.flatMap_cons, fixedLines_pieces]
  simp only [List.append_assoc]

theorem double_iff (s : Bytes) : crLfCrLf <:+: s ↔ [] ∈ (pieces crLf s).tail.dropLast :=
  double_infix_iff crLf_unbordered s

theorem host_double_iff (host : Bytes) :
    crLfCrLf <:+: host ++ crLf ↔ [] ∈ (pieces crLf host).tail := by
  have hpieces : pieces crLf (host ++ crLf) = pieces crLf host ++ [[]] := by
    simpa using pieces_append_sep crLf_unbordered host []
  rw [double_iff, hpieces, List.tail_append_of_ne_nil (pieces_ne_nil _ _), List.dropLast_concat]

theorem packet_head_iff (cfg : Config) :
    find crLfCrLf (buildGetRequest (Slot.request cfg)) =
        some ((buildGetRequest (Slot.request cfg)).length - 4) ↔
      ¬ crLfCrLf <:+: requestPath cfg.path ∧ ¬ crLfCrLf <:+: cfg.host ++ crLf := by
  have hne : requestLines (Slot.request cfg) ≠ [] := by simp [requestLines]
  have hlen : 4 ≤ (buildGetRequest (Slot.request cfg)).length := by
    rw [buildGetRequest_eq]
    obtain ⟨t, ht⟩ := exists_block_eq hne
    simp [ht, crLf]
  obtain ⟨p, ps, hhost⟩ := List.exists_cons_of_ne_nil (pieces_ne_nil crLf cfg.host)
  have htail : ((requestLines (Slot.request cfg)).flatMap (pieces crLf)).tail =
      (pieces crLf (requestLine cfg.path)).tail ++ ((ascii "Host: " ++ p) :: ps ++ fixedLines) := by
    rw [requestLines_request, List.flatMap_cons, List.flatMap_cons, fixedLines_pieces,
      List.tail_append_of_ne_nil (pieces_ne_nil _ _), pieces_host hhost]
  have hfixed : [] ∉ fixedLines := by decide
  rw [← endsOnce_iff_find hlen, buildGetRequest_eq, endsOnce_block hne, htail, double_iff,
    host_double_iff, hhost, ← (requestLine_lineOf cfg.path).nil_mem]
  simp [hfixed, ascii]

theorem packet_hosts (cfg : Config) :
    (pieces crLf (buildGetRequest (Slot.request cfg))).countP isHostLine =
      (pieces crLf (requestPath cfg.path)).tail.countP isHostLine + 1 +
        (pieces crLf cfg.host).tail.countP isHostLine := by
  have hfixed : (fixedLines ++ [[], []]).countP isHostLine = 0 := by decide
  obtain ⟨p, ps, hhost⟩ := List.exists_cons_of_ne_nil (pieces_ne_nil crLf cfg.host)
  rw [packet_pieces, pieces_host hhost, List.countP_append, List.countP_append, hfixed,
    (requestLine_lineOf cfg.path).hosts, List.countP_cons_of_pos (isHostLine_host p), hhost,
    List.tail_cons]
  omega

/-- **When the request of a configuration is well-formed.** -/
theorem packet_wellFormed_iff {cfg : Config}
    (hprotocol : cfg.protocol = .http ∨ cfg.protocol = .https) :
    WellFormed (packet cfg) ↔ CleanTarget cfg.host (requestPath cfg.path) := by
  rw [packet_eq hprotocol]
  have hhead := packet_head_iff cfg
  have hhosts := packet_hosts cfg
  have hwords := (requestLine_lineOf cfg.path).words
  have hfirst : firstPiece (buildGetRequest (Slot.request cfg)) =
      (pieces crLf (requestLine cfg.path)).headD [] := by
    rw [firstPiece, packet_pieces]
    cases h : pieces crLf (requestLine cfg.path) with
    | nil => exact absurd h (pieces_ne_nil _ _)
    | cons l ls => rfl
  have hno : ∀ lines : List Bytes,
      lines.countP isHostLine = 0 ↔ ∀ line ∈ lines, isHostLine line = false := by
    simp [List.countP_eq_zero]
  constructor
  · rintro ⟨hend, hone, htarget, hspaces⟩
    rw [hfirst] at htarget hspaces
    refine ⟨(hhead.mp hend).1, (hhead.mp hend).2, ?_, hwords.mp ⟨htarget, hspaces⟩⟩
    rw [← hno, List.countP_append]
    omega
  · rintro ⟨hpath, hhost, hlines, htarget⟩
    rw [← hno, List.countP_append] at hlines
    obtain ⟨hform, hspaces⟩ := hwords.mpr htarget
    rw [← hfirst] at hform hspaces
    exact ⟨hhead.mpr ⟨hpath, hhost⟩, by omega, hform, hspaces⟩

/-- **When an accepted configuration gives one well-formed request.** The path in the request is
the one of the configuration, unless only help or the version is to be shown. -/
theorem accepted_wellFormed_iff {cfg : CliConfig} (h : Accepted cfg)
    (hprotocol : cfg.protocol = .http ∨ cfg.protocol = .https) :
    (WellFormed (packet cfg.toConfig) ↔ CleanTarget cfg.host (requestPath cfg.path)) ∧
      (cfg.showHelp = false → cfg.showVersion = false → requestPath cfg.path = cfg.path) := by
  refine ⟨packet_wellFormed_iff hprotocol, fun hhelp hversion => ?_⟩
  rw [requestPath_eq, if_pos (h.path_head hhelp hversion hprotocol)]

/-- What `-c 1 -n 1 -h h -P 80 --path` is with this path behind the slash. -/
def pathConfig (path : Bytes) : CliConfig :=
  { concurrency := 1
    requests := 1
    hasRequests := true
    host := ascii "h"
    port := 80
    path := slash :: path }

theorem pathConfig_accepted (path : Bytes) : Accepted (pathConfig path) := by
  have hone : parsePositiveInt (ascii "1") = some 1 := by decide
  have hone64 : parsePositiveInt64 (ascii "1") = some 1 := by decide
  have hport : parsePort (ascii "80") = some 80 := by decide
  refine ⟨false, [.concurrency (ascii "1"), .requests (ascii "1"), .host (ascii "h"),
    .port (ascii "80"), .path (slash :: path)], pathConfig path, ?_, ?_⟩
  · simp [parseArgs, parseOption, store, hone, hone64, hport, pathConfig]
  · simp [validateConfig, completePath, pathConfig, ascii]

/-- A path without a CRLF and a space. -/
theorem accepted_wellFormed_ab : WellFormed (packet (pathConfig (ascii "a/b")).toConfig) := by
  refine (accepted_wellFormed_iff (pathConfig_accepted (ascii "a/b")) (.inl rfl)).1.mpr
    ⟨by decide, by decide, by decide, ?_⟩
  rw [if_neg (by decide)]
  decide

/-- A space in the path is a third one in the request line. -/
theorem accepted_spaces :
    ¬ ∀ cfg : CliConfig, Accepted cfg → cfg.protocol = .http ∨ cfg.protocol = .https →
      WellFormed (packet cfg.toConfig) := by
  intro h
  have hspaces := (h (pathConfig (ascii "a b")) (pathConfig_accepted _) (.inl rfl)).spaces
  exact absurd hspaces (by decide)

end TitanBench
