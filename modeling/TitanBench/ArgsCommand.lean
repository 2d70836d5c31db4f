import TitanBench.Args
import TitanBench.Lib.GetOpt

/-!
# From the command line to the run

`ParseArgs` walks through the answers of `getopt_long`, which `Lib/GetOpt.lean` computes and
describes by a grammar; `main` then checks the configuration or shows a text.

* `command` — what `main` makes of its arguments, up to the start of the run.
* `parsePositiveInt_iff`, `parsePositiveInt64_iff`, `parsePort_iff` — the numbers as they may be
  written.
* `described` — what a list of options says; `parseArgs_readable` — the loop computes it.
* `command_outcome` — the main result: which command lines start a run, and of what.
-/

namespace TitanBench

open GetOpt

/-! ## The options of the program -/

def longOptions : List (LongOption UInt8 ℕ) :=
  [⟨ascii "concurrency", true, 99⟩,
    ⟨ascii "requests", true, 110⟩,
    ⟨ascii "time", true, 116⟩,
    ⟨ascii "threads", true, 84⟩,
    ⟨ascii "protocol", true, 112⟩,
    ⟨ascii "host", true, 104⟩,
    ⟨ascii "port", true, 80⟩,
    ⟨ascii "path", true, 1000⟩,
    ⟨ascii "help", false, 1001⟩,
    ⟨ascii "version", false, 1002⟩]

/-- Each letter is followed by one colon: all of these options take an argument. -/
def optstring : Bytes := ascii "c:n:t:T:p:h:P:"

def cliOptions : GetOpt.Options UInt8 ℕ where
  dash := 45
  equals := 61
  short c := if c ∈ optstring ∧ c ≠ colon then some c.toNat else none
  long := longOptions

/-- The `switch` of `ParseArgs`, whose short options are given by the codes of their letters. -/
def caseOf (c : ℕ) (optarg : Bytes) : Opt :=
  if c = 99 then .concurrency optarg
  else if c = 110 then .requests optarg
  else if c = 116 then .time optarg
  else if c = 84 then .threads optarg
  else if c = 112 then .protocol optarg
  else if c = 104 then .host optarg
  else if c = 80 then .port optarg
  else if c = 1000 then .path optarg
  else if c = 1001 then .help
  else if c = 1002 then .version
  else if c = 63 then .malformed
  else .unexpected

/-- What `ParseArgs` makes of the answer of a call, which is `?` for an option that is not known or
has no argument. -/
def switch : Answer UInt8 ℕ → Opt
  | .option (c, optarg) => caseOf c (optarg.getD [])
  | .malformed => caseOf 63 []

/-- `ParseArgs` on the arguments behind the name of the program. -/
def parseCommandLine (args : List Bytes) : Except String CliConfig :=
  parseArgs (cliOptions.scan args).2 ((cliOptions.scan args).1.map switch) {}

/-- What `main` does with its arguments. -/
inductive Outcome
  | usageError (msg : String)
  | help
  | version
  | run (config : CliConfig)

def command (args : List Bytes) : Outcome :=
  match parseCommandLine args with
  | .error msg => .usageError msg
  | .ok config =>
    if config.showHelp then .help
    else if config.showVersion then .version
    else
      match validateConfig config with
      | .error msg => .usageError msg
      | .ok config => .run config

/-! ## Numbers as they may be written -/

/-- White space, a plus sign or none, and digits. -/
structure Writes (text : Bytes) (n : ℕ) : Prop where
  exists_parts : ∃ spaces sign ds, text = spaces ++ (sign ++ ds) ∧
    (∀ b ∈ spaces, isSpace b = true) ∧ (sign = [] ∨ sign = [43]) ∧ ds ≠ [] ∧
    (∀ b ∈ ds, isDigit b = true) ∧ decimal ds = n

theorem isSpace_of_isDigit {b : UInt8} (h : isDigit b = true) : isSpace b = false := by
  simp only [isDigit, Bool.and_eq_true, decide_eq_true_eq, UInt8.le_iff_toNat_le] at h
  simp only [isSpace, space, Bool.or_eq_false_iff, Bool.and_eq_false_iff, beq_eq_false_iff_ne,
    ne_eq, decide_eq_false_iff_not, UInt8.le_iff_toNat_le, ← UInt8.toNat_inj]
  have h48 : (48 : UInt8).toNat = 48 := rfl
  have h13 : (13 : UInt8).toNat = 13 := rfl
  have h32 : (32 : UInt8).toNat = 32 := rfl
  omega

theorem ne_sign_of_isDigit {b : UInt8} (h : isDigit b = true) : b ≠ 45 ∧ b ≠ 43 := by
  constructor <;> rintro rfl <;> simp [isDigit] at h

theorem stoll_spaces {spaces : Bytes} (h : ∀ b ∈ spaces, isSpace b = true) (s : Bytes) :
    stoll (spaces ++ s) = stoll s := by
  simp only [stoll, List.dropWhile_append_of_pos h]

theorem stoll_digits {ds : Bytes} (hne : ds ≠ []) (hds : ∀ b ∈ ds, isDigit b = true)
    (hlt : decimal ds < 2 ^ 63) :
    stoll ds = some ((decimal ds : ℤ), []) ∧ stoll (43 :: ds) = some ((decimal ds : ℤ), []) := by
  obtain ⟨d, rest, rfl⟩ := List.exists_cons_of_ne_nil hne
  have hd := hds d List.mem_cons_self
  have htake : (d :: rest).takeWhile isDigit = d :: rest := List.takeWhile_eq_self_iff.mpr hds
  have hdrop : (d :: rest).dropWhile isDigit = [] := List.dropWhile_eq_nil_iff.mpr hds
  have hstart : (d :: rest).dropWhile isSpace = d :: rest := by simp [isSpace_of_isDigit hd]
  have hplus : (43 :: d :: rest).dropWhile isSpace = 43 :: d :: rest := by
    simp [(by decide : isSpace 43 = false)]
  constructor
  · unfold stoll
    rw [hstart]
    simp [ne_sign_of_isDigit hd, htake, hdrop]
    omega
  · unfold stoll
    rw [hplus]
    simp [htake, hdrop]
    omega

theorem stoll_of_writes {text : Bytes} {n : ℕ} (h : Writes text n) (hn : n < 2 ^ 63) :
    stoll text = some ((n : ℤ), []) := by
  obtain ⟨spaces, sign, ds, rfl, hspaces, hsign, hne, hds, rfl⟩ := h
  rw [stoll_spaces hspaces]
  rcases hsign with rfl | rfl
  · exact (stoll_digits hne hds hn).1
  · exact (stoll_digits hne hds hn).2

theorem writes_of_stoll {text : Bytes} {value : ℤ} (h : stoll text = some (value, []))
    (hpos : 0 < value) : Writes text value.toNat := by
  have hsplit := List.takeWhile_append_dropWhile (p := isSpace) (l := text)
  have hspaces : ∀ b ∈ text.takeWhile isSpace, isSpace b = true := fun b hb =>
    List.mem_takeWhile_imp hb
  unfold stoll at h
  generalize text.takeWhile isSpace = spaces at hsplit hspaces
  generalize text.dropWhile isSpace = body at hsplit h
  extract_lets start negative digits ds value' at h
  split_ifs at h with hbad
  simp only [Option.some.injEq, Prod.mk.injEq] at h
  obtain ⟨hvalue, hrest⟩ := h
  have hds : ds = digits := by
    have hall := List.takeWhile_append_dropWhile (p := isDigit) (l := digits)
    rwa [hrest, List.append_nil] at hall
  have hnegative : ¬ negative := by
    intro hneg
    have hle : value' = -(decimal ds : ℤ) := if_pos hneg
    omega
  have hpositive : value' = decimal ds := if_neg hnegative
  have hisDigit : ∀ b ∈ digits, isDigit b = true := fun b hb =>
    List.mem_takeWhile_imp (hds.symm ▸ hb : b ∈ ds)
  have hne : digits ≠ [] := fun heq => hbad (.inl (hds.trans heq))
  have hnum : decimal digits = value.toNat := by
    rw [← hds]
    omega
  by_cases hplus : body.head? = some 43
  · have hdigits : digits = body.tail := if_pos (.inr hplus)
    refine ⟨spaces, [43], digits, ?_, hspaces, .inr rfl, hne, hisDigit, hnum⟩
    rw [← hsplit, hdigits, List.singleton_append, List.cons_head?_tail hplus]
  · have hdigits : digits = body := if_neg (not_or.mpr ⟨hnegative, hplus⟩)
    exact ⟨spaces, [], digits, by rw [← hsplit, hdigits, List.nil_append], hspaces, .inl rfl, hne,
      hisDigit, hnum⟩

theorem stoll_iff {text : Bytes} {value : ℤ} (hpos : 0 < value) (hlt : value < 2 ^ 63) :
    stoll text = some (value, []) ↔ Writes text value.toNat := by
  refine ⟨fun h => writes_of_stoll h hpos, fun h => ?_⟩
  have hread := stoll_of_writes h (by omega)
  rwa [Int.toNat_of_nonneg hpos.le] at hread

theorem Writes.ne_nil {text : Bytes} {n : ℕ} (h : Writes text n) : text ≠ [] := by
  obtain ⟨spaces, sign, ds, rfl, -, -, hne, -⟩ := h
  simp [hne]

theorem parsePositiveInt_iff {text : Bytes} {n : ℤ} :
    parsePositiveInt text = some n ↔ Writes text n.toNat ∧ 0 < n ∧ n ≤ intMax := by
  constructor
  · intro h
    have hrange := parsePositiveInt_range h
    unfold parsePositiveInt at h
    split_ifs at h
    split at h
    next parsed hstoll =>
      split_ifs at h
      cases h
      exact ⟨writes_of_stoll hstoll hrange.1, hrange⟩
    · cases h
  · rintro ⟨hwrites, hpos, hle⟩
    have hlt : n < 2 ^ 63 := by unfold intMax at hle; omega
    unfold parsePositiveInt
    rw [if_neg hwrites.ne_nil, (stoll_iff hpos hlt).mpr hwrites]
    exact if_neg (by omega)

theorem parsePositiveInt64_iff {text : Bytes} {n : ℤ} :
    parsePositiveInt64 text = some n ↔ Writes text n.toNat ∧ 0 < n ∧ n < 2 ^ 63 := by
  constructor
  · intro h
    have hrange := parsePositiveInt64_range h
    unfold parsePositiveInt64 at h
    split_ifs at h
    split at h
    next parsed hstoll =>
      split_ifs at h
      cases h
      exact ⟨writes_of_stoll hstoll hrange.1, hrange⟩
    · cases h
  · rintro ⟨hwrites, hpos, hlt⟩
    unfold parsePositiveInt64
    rw [if_neg hwrites.ne_nil, (stoll_iff hpos hlt).mpr hwrites]
    exact if_neg (by omega)

theorem parsePort_iff {text : Bytes} {n : ℤ} :
    parsePort text = some n ↔ Writes text n.toNat ∧ 0 < n ∧ n ≤ 65535 := by
  unfold parsePort
  constructor
  · intro h
    split at h
    next port hport =>
      split_ifs at h
      cases h
      obtain ⟨hwrites, hpos, -⟩ := parsePositiveInt_iff.mp hport
      exact ⟨hwrites, hpos, by omega⟩
    · cases h
  · rintro ⟨hwrites, hpos, hle⟩
    rw [parsePositiveInt_iff.mpr ⟨hwrites, hpos, by unfold intMax; omega⟩]
    exact if_neg (by omega)

/-! ## The options of a command line -/

/-- The option can be read where the loop meets it. -/
def Opt.Readable : Opt → Prop
  | .concurrency optarg | .time optarg | .threads optarg =>
    ∃ n, Writes optarg n ∧ 0 < n ∧ (n : ℤ) ≤ intMax
  | .requests optarg => ∃ n, Writes optarg n ∧ 0 < n ∧ n < 2 ^ 63
  | .port optarg => ∃ n, Writes optarg n ∧ 0 < n ∧ n ≤ 65535
  | .protocol optarg => (parseProtocol optarg).isSome = true
  | .host _ | .path _ => True
  | .help | .version | .malformed | .unexpected => False

/-- The value that the last of the options gives, for the options that `read` is about. -/
def lastOf {β : Type*} (read : Opt → Option β) (opts : List Opt) : Option β :=
  (opts.filterMap read).getLast?

namespace Opt

@[simp] def readConcurrency : Opt → Option ℤ
  | .concurrency optarg => parsePositiveInt optarg
  | _ => none

@[simp] def readRequests : Opt → Option ℤ
  | .requests optarg => parsePositiveInt64 optarg
  | _ => none

@[simp] def readTime : Opt → Option ℤ
  | .time optarg => parsePositiveInt optarg
  | _ => none

@[simp] def readThreads : Opt → Option ℤ
  | .threads optarg => parsePositiveInt optarg
  | _ => none

@[simp] def readProtocol : Opt → Option Protocol
  | .protocol optarg => parseProtocol optarg
  | _ => none

@[simp] def readHost : Opt → Option Bytes
  | .host optarg => some optarg
  | _ => none

@[simp] def readPort : Opt → Option ℤ
  | .port optarg => parsePort optarg
  | _ => none

@[simp] def readPath : Opt → Option Bytes
  | .path optarg => some optarg
  | _ => none

end Opt

/-- What the options say: each field is given by the last of its options, or left as it is. -/
def described (opts : List Opt) : CliConfig where
  concurrency := (lastOf Opt.readConcurrency opts).getD 0
  requests := (lastOf Opt.readRequests opts).getD 0
  durationSeconds := (lastOf Opt.readTime opts).getD 0
  threads := (lastOf Opt.readThreads opts).getD 1
  protocol := (lastOf Opt.readProtocol opts).getD .http
  host := (lastOf Opt.readHost opts).getD []
  port := (lastOf Opt.readPort opts).getD 0
  path := (lastOf Opt.readPath opts).getD [slash]
  hasRequests := (lastOf Opt.readRequests opts).isSome
  hasDuration := (lastOf Opt.readTime opts).isSome

theorem lastOf_append {β : Type*} (read : Opt → Option β) (opts : List Opt) (o : Opt) :
    lastOf read (opts ++ [o]) = (read o).or (lastOf read opts) := by
  unfold lastOf
  rw [List.filterMap_append, List.getLast?_append]
  cases h : read o <;> simp [h]

@[simp] theorem lastOf_nil {β : Type*} (read : Opt → Option β) : lastOf read [] = none := rfl

theorem exists_writes {text : Bytes} {top : ℤ} (h : ∃ n, Writes text n ∧ 0 < n ∧ (n : ℤ) ≤ top) :
    ∃ n : ℤ, Writes text n.toNat ∧ 0 < n ∧ n ≤ top := by
  obtain ⟨n, hwrites, hpos, hle⟩ := h
  exact ⟨n, hwrites, by omega, hle⟩

/-- The loop keeps up with what the options say. -/
theorem parseOption_described (opts : List Opt) {o : Opt} (h : o.Readable) :
    parseOption (described opts) o = .ok (described (opts ++ [o]), false) := by
  cases o with
  | concurrency optarg =>
    obtain ⟨n, hn⟩ := exists_writes h
    simp [parseOption, store, described, lastOf_append, parsePositiveInt_iff.mpr hn]
  | requests optarg =>
    obtain ⟨n, hwrites, hpos, hlt⟩ := h
    have hread : parsePositiveInt64 optarg = some (n : ℤ) :=
      parsePositiveInt64_iff.mpr ⟨hwrites, by omega, by exact_mod_cast hlt⟩
    simp [parseOption, store, described, lastOf_append, hread]
  | time optarg =>
    obtain ⟨n, hn⟩ := exists_writes h
    simp [parseOption, store, described, lastOf_append, parsePositiveInt_iff.mpr hn]
  | threads optarg =>
    obtain ⟨n, hn⟩ := exists_writes h
    simp [parseOption, store, described, lastOf_append, parsePositiveInt_iff.mpr hn]
  | protocol optarg =>
    obtain ⟨protocol, hread⟩ := Option.isSome_iff_exists.mp h
    simp [parseOption, store, described, lastOf_append, hread]
  | host optarg => simp [parseOption, described, lastOf_append]
  | port optarg =>
    obtain ⟨n, hwrites, hpos, hle⟩ := h
    have hread : parsePort optarg = some (n : ℤ) :=
      parsePort_iff.mpr ⟨hwrites, by omega, by exact_mod_cast hle⟩
    simp [parseOption, store, described, lastOf_append, hread]
  | path optarg => simp [parseOption, described, lastOf_append]
  | help => exact absurd h id
  | version => exact absurd h id
  | malformed => exact absurd h id
  | unexpected => exact absurd h id

theorem store_error {β : Type*} {value : Option β} (h : ∀ v, value ≠ some v) (msg : String)
    (set : β → CliConfig) : ∃ msg', store value msg set = .error msg' := by
  rw [Option.eq_none_iff_forall_ne_some.mpr h]
  exact ⟨msg, rfl⟩

/-- What the loop does at an option that it cannot read. -/
theorem parseOption_unreadable (config : CliConfig) {o : Opt} (h : ¬ o.Readable) :
    (∃ msg, parseOption config o = .error msg) ∨
      o = .help ∧ parseOption config o = .ok ({ config with showHelp := true }, true) ∨
      o = .version ∧ parseOption config o = .ok ({ config with showVersion := true }, true) := by
  cases o with
  | concurrency optarg | time optarg | threads optarg =>
    refine .inl (store_error (fun n hn => h ⟨n.toNat, ?_⟩) _ _)
    obtain ⟨hwrites, hpos, hle⟩ := parsePositiveInt_iff.mp hn
    exact ⟨hwrites, by omega, by omega⟩
  | requests optarg =>
    refine .inl (store_error (fun n hn => h ⟨n.toNat, ?_⟩) _ _)
    obtain ⟨hwrites, hpos, hlt⟩ := parsePositiveInt64_iff.mp hn
    exact ⟨hwrites, by omega, by omega⟩
  | port optarg =>
    refine .inl (store_error (fun n hn => h ⟨n.toNat, ?_⟩) _ _)
    obtain ⟨hwrites, hpos, hle⟩ := parsePort_iff.mp hn
    exact ⟨hwrites, by omega, by omega⟩
  | protocol optarg =>
    exact .inl (store_error (fun v hv => h (Option.isSome_iff_exists.mpr ⟨v, hv⟩)) _ _)
  | host optarg | path optarg => exact absurd trivial h
  | help => exact .inr (.inl ⟨rfl, rfl⟩)
  | version => exact .inr (.inr ⟨rfl, rfl⟩)
  | malformed | unexpected => exact .inl ⟨_, rfl⟩

/-! ## The whole loop -/

theorem parseArgs_readable (positional : Bool) {opts : List Opt} (h : ∀ o ∈ opts, o.Readable)
    (more : List Opt) :
    parseArgs positional (opts ++ more) {} = parseArgs positional more (described opts) := by
  induction opts using List.reverseRecOn generalizing more with
  | nil => rfl
  | append_singleton opts o ih =>
    have ho := h o (List.mem_append_right _ List.mem_cons_self)
    rw [List.append_assoc, ih fun o ho => h o (List.mem_append_left _ ho), List.singleton_append,
      parseArgs, parseOption_described opts ho]

/-- The options up to the first that cannot be read. -/
theorem readable_or_split (opts : List Opt) :
    (∀ o ∈ opts, o.Readable) ∨
      ∃ before o after, opts = before ++ o :: after ∧ (∀ o ∈ before, o.Readable) ∧
        ¬ o.Readable := by
  induction opts with
  | nil => exact .inl fun _ ho => absurd ho List.not_mem_nil
  | cons o opts ih =>
    by_cases ho : o.Readable
    · rcases ih with hall | ⟨before, bad, after, rfl, hbefore, hbad⟩
      · exact .inl (List.forall_mem_cons.mpr ⟨ho, hall⟩)
      · exact .inr ⟨o :: before, bad, after, rfl, List.forall_mem_cons.mpr ⟨ho, hbefore⟩, hbad⟩
    · exact .inr ⟨[], o, opts, rfl, fun _ h => absurd h List.not_mem_nil, ho⟩

/-- How the loop ends: behind the options, or at the first that it cannot read. -/
theorem parseArgs_cases (positional : Bool) (opts : List Opt) :
    (∀ o ∈ opts, o.Readable) ∧ parseArgs positional opts {}
        = (if positional then .error "unexpected positional arguments" else .ok (described opts)) ∨
      ∃ before o after, opts = before ++ o :: after ∧ (∀ o ∈ before, o.Readable) ∧
        ((∃ msg, parseArgs positional opts {} = .error msg) ∨
          o = .help ∧ parseArgs positional opts {}
            = .ok { described before with showHelp := true } ∨
          o = .version ∧ parseArgs positional opts {}
            = .ok { described before with showVersion := true }) := by
  rcases readable_or_split opts with hall | ⟨before, o, after, rfl, hbefore, ho⟩
  · refine .inl ⟨hall, ?_⟩
    have hend := parseArgs_readable positional hall []
    rwa [List.append_nil] at hend
  · refine .inr ⟨before, o, after, rfl, hbefore, ?_⟩
    rw [parseArgs_readable positional hbefore, parseArgs]
    rcases parseOption_unreadable (described before) ho with ⟨msg, h⟩ | ⟨rfl, h⟩ | ⟨rfl, h⟩
    · exact .inl ⟨msg, by rw [h]⟩
    · exact .inr (.inl ⟨rfl, by rw [h]⟩)
    · exact .inr (.inr ⟨rfl, by rw [h]⟩)

/-! ## The command line -/

/-- The options that the command line spells, and nothing else. Two dashes may end it. -/
def CommandLine (args : List Bytes) (opts : List Opt) : Prop :=
  ∃ pre found, cliOptions.Reads pre found false ∧ (args = pre ∨ args = pre ++ [ascii "--"]) ∧
    opts = found.map (switch ∘ .option)

/-- This option stands on the command line, with readable options and words only before it. -/
def Shows (o : Opt) (args : List Bytes) : Prop :=
  ∃ pre ws post found words f, args = pre ++ ws ++ post ∧ cliOptions.Reads pre found words ∧
    (∀ g ∈ found, (switch (.option g)).Readable) ∧ cliOptions.Spells ws f ∧ switch (.option f) = o

/-- The options that the loop is given, and where they come from. -/
theorem exists_options (args : List Bytes) :
    ∃ pre rest found words result, args = pre ++ rest ∧ cliOptions.Reads pre found words ∧
      cliOptions.Stops rest result ∧
      cliOptions.scan args = (found.map .option ++ result.1, words || result.2) := by
  obtain ⟨pre, rest, found, words, result, rfl, hreads, hstops⟩ :=
    Options.exists_reads cliOptions args
  refine ⟨pre, rest, found, words, result, rfl, hreads, hstops, ?_⟩
  rw [Options.scan_reads hreads, hstops.scan]

theorem parseCommandLine_of_commandLine {args : List Bytes} {opts : List Opt}
    (h : CommandLine args opts) (hopts : ∀ o ∈ opts, o.Readable) :
    parseCommandLine args = .ok (described opts) := by
  obtain ⟨pre, found, hreads, hargs, rfl⟩ := h
  have hscan : cliOptions.scan args = (found.map .option, false) := by
    rcases hargs with rfl | rfl
    · have h := Options.scan_reads hreads []
      simpa [Options.scan] using h
    · have h := Options.scan_reads hreads [ascii "--"]
      have hdashes : cliOptions.scan [ascii "--"] = ([], false) := rfl
      simpa [hdashes] using h
  unfold parseCommandLine
  rw [hscan]
  have hend := parseArgs_readable false hopts []
  rw [List.append_nil] at hend
  rw [List.map_map]
  exact hend

/-- At most one answer is left where the scanner stops, and it is no option. -/
theorem stops_answers {rest : List Bytes} {result : List (Answer UInt8 ℕ) × Bool}
    (h : cliOptions.Stops rest result) :
    result.1 = [] ∧ (result.2 = false → rest = [] ∨ rest = [ascii "--"]) ∨
      result.1 = [.malformed] := by
  cases h with
  | done => exact .inl ⟨rfl, fun _ => .inl rfl⟩
  | terminator args =>
    refine .inl ⟨rfl, fun hargs => .inr ?_⟩
    have hnil : args = [] := by simpa using hargs
    rw [hnil]
    rfl
  | malformed => exact .inr rfl
  | missing => exact .inr rfl

/-- An option that only the `switch` makes was found. -/
theorem mem_found {found : List (Found UInt8 ℕ)} {answers : List (Answer UInt8 ℕ)}
    (hanswers : answers = [] ∨ answers = [.malformed]) {before after : List Opt} {o : Opt}
    (ho : o ≠ .malformed)
    (h : (found.map Answer.option ++ answers).map switch = before ++ o :: after) :
    ∃ found₁ f found₂, found = found₁ ++ f :: found₂ ∧ before = found₁.map (switch ∘ .option) ∧
      switch (.option f) = o := by
  have hmalformed : switch .malformed = .malformed := rfl
  rw [List.map_append, List.map_map] at h
  rcases List.append_eq_append_iff.mp h with ⟨as, hbefore, hrest⟩ | ⟨as, hfound, hrest⟩
  · -- Behind the options that were found there is at most the answer that is no option.
    exfalso
    have hmem : o ∈ answers.map switch := by
      rw [hrest]
      exact List.mem_append_right _ List.mem_cons_self
    rcases hanswers with rfl | rfl
    · exact List.not_mem_nil hmem
    · exact ho (by simpa [hmalformed] using hmem)
  · cases as with
    | nil =>
      exfalso
      rw [List.nil_append] at hrest
      rcases hanswers with rfl | rfl
      · simp at hrest
      · simp [hmalformed] at hrest
        exact ho hrest.1
    | cons o' as =>
      obtain ⟨rfl, -⟩ := List.cons.inj hrest
      obtain ⟨found₁, tail, rfl, hfound₁, htail⟩ := List.map_eq_append_iff.mp hfound
      obtain ⟨f, found₂, rfl, hf, -⟩ := List.map_eq_cons_iff.mp htail
      exact ⟨found₁, f, found₂, rfl, hfound₁.symm, hf⟩

/-- The loop ends well behind a command line of readable options, or where help or the version is
asked for. -/
theorem parseCommandLine_ok {args : List Bytes} {config : CliConfig}
    (h : parseCommandLine args = .ok config) :
    (∃ opts, CommandLine args opts ∧ (∀ o ∈ opts, o.Readable) ∧ config = described opts) ∨
      Shows .help args ∧ config.showHelp = true ∨
      Shows .version args ∧ config.showHelp = false ∧ config.showVersion = true := by
  obtain ⟨pre, rest, found, words, result, rfl, hreads, hstops, hscan⟩ := exists_options args
  unfold parseCommandLine at h
  rw [hscan] at h
  have hleft := stops_answers hstops
  have hanswers : result.1 = [] ∨ result.1 = [.malformed] := hleft.imp_left And.left
  rcases parseArgs_cases (words || result.2) ((found.map Answer.option ++ result.1).map switch)
    with ⟨hall, hend⟩ | ⟨before, o, after, hopts, hbefore, hend⟩
  · refine .inl ?_
    rw [hend] at h
    split_ifs at h with hpositional
    cases h
    simp only [Bool.or_eq_true, not_or, Bool.not_eq_true] at hpositional
    obtain ⟨rfl, hempty⟩ := hpositional
    rcases hleft with ⟨hnil, hrest⟩ | hmalformed
    · rw [hnil, List.append_nil, List.map_map] at hall ⊢
      refine ⟨_, ⟨pre, found, hreads, ?_, rfl⟩, hall, rfl⟩
      rcases hrest hempty with rfl | rfl
      · exact .inl (List.append_nil pre)
      · exact .inr rfl
    · refine absurd (hall .malformed ?_) id
      rw [hmalformed]
      exact List.mem_map.mpr ⟨_, List.mem_append_right _ List.mem_cons_self, rfl⟩
  · have hshows : o ≠ .malformed → Shows o (pre ++ rest) := by
      intro hne
      obtain ⟨found₁, f, found₂, rfl, hfound₁, hf⟩ := mem_found hanswers hne hopts
      obtain ⟨pre₁, ws, post, rfl, ⟨words', hreads₁⟩, hspells⟩ := hreads.split
      refine ⟨pre₁, ws, post ++ rest, found₁, words', f, by simp only [List.append_assoc],
        hreads₁, fun g hg => ?_, hspells, hf⟩
      rw [hfound₁] at hbefore
      exact hbefore _ (List.mem_map.mpr ⟨g, hg, rfl⟩)
    rcases hend with ⟨msg, hend⟩ | ⟨rfl, hend⟩ | ⟨rfl, hend⟩
    · rw [hend] at h
      cases h
    · rw [hend] at h
      cases h
      exact .inr (.inl ⟨hshows (by simp), rfl⟩)
    · rw [hend] at h
      cases h
      exact .inr (.inr ⟨hshows (by simp), rfl, rfl⟩)

/-- Where help or the version is asked for, nothing behind it is looked at. -/
theorem parseCommandLine_of_shows {o : Opt} {args : List Bytes} (h : Shows o args) :
    ∃ opts, ∀ config, parseOption (described opts) o = .ok (config, true) →
      parseCommandLine args = .ok config := by
  obtain ⟨pre, ws, post, found, words, f, rfl, hreads, hfound, hspells, hf⟩ := h
  refine ⟨found.map (switch ∘ .option), fun config hstep => ?_⟩
  have hall : ∀ o ∈ found.map (switch ∘ .option), Opt.Readable o := by
    intro o ho
    obtain ⟨g, hg, rfl⟩ := List.mem_map.mp ho
    exact hfound g hg
  have hws := Options.scan_reads (Options.Reads.option hspells .nil) post
  rw [List.append_nil] at hws
  unfold parseCommandLine
  rw [List.append_assoc, Options.scan_reads hreads, hws, List.map_append, List.map_map,
    parseArgs_readable _ hall]
  simp only [List.map_cons, List.map_nil, List.singleton_append, hf, parseArgs, hstep]

theorem described_ranged {opts : List Opt} (h : ∀ o ∈ opts, o.Readable) :
    (described opts).Ranged := by
  have hend := parseArgs_readable false h []
  rw [List.append_nil] at hend
  exact parseArgs_ranged CliConfig.ranged_default hend

theorem validateConfig_iff {opts : List Opt} (h : ∀ o ∈ opts, o.Readable) {cfg : CliConfig} :
    validateConfig (described opts) = .ok cfg ↔
      (described opts).Runnable ∧
        cfg = { described opts with path := completePath (described opts) } := by
  constructor
  · intro hvalid
    rcases validateConfig_ok hvalid with
      ⟨hshow, -⟩ | ⟨-, -, hconcurrency, hhost, hport, hmodes, rfl⟩
    · simp [described] at hshow
    · exact ⟨⟨hconcurrency, (described_ranged h).threads.1, hhost, hport, hmodes⟩, rfl⟩
  · rintro ⟨hrun, rfl⟩
    have hconcurrency := hrun.concurrency
    have hport := hrun.port
    have hshow : ¬ ((described opts).showHelp = true ∨ (described opts).showVersion = true) := by
      simp [described]
    unfold validateConfig
    rw [if_neg hshow, if_neg (by omega), if_neg hrun.host, if_neg (by omega), if_neg hrun.modes]

theorem command_run_iff {args : List Bytes} {cfg : CliConfig} :
    command args = .run cfg ↔
      ∃ opts, CommandLine args opts ∧ (∀ o ∈ opts, o.Readable) ∧ (described opts).Runnable ∧
        cfg = { described opts with path := completePath (described opts) } := by
  constructor
  · intro h
    unfold command at h
    split at h
    · cases h
    next config hparsed =>
      split_ifs at h with hhelp hversion
      split at h
      · cases h
      next hvalid =>
        cases h
        rcases parseCommandLine_ok hparsed with
          ⟨opts, hline, hopts, rfl⟩ | ⟨-, hshow⟩ | ⟨-, -, hshow⟩
        · exact ⟨opts, hline, hopts, (validateConfig_iff hopts).mp hvalid⟩
        · exact absurd hshow hhelp
        · exact absurd hshow hversion
  · rintro ⟨opts, hline, hopts, hvalid⟩
    unfold command
    rw [parseCommandLine_of_commandLine hline hopts]
    simp only [(validateConfig_iff hopts).mpr hvalid]
    rfl

theorem command_help_iff {args : List Bytes} : command args = .help ↔ Shows .help args := by
  constructor
  · intro h
    unfold command at h
    split at h
    · cases h
    next config hparsed =>
      rcases parseCommandLine_ok hparsed with ⟨opts, -, -, rfl⟩ | ⟨hshows, -⟩ | ⟨-, hhelp, hversion⟩
      · cases hvalid : validateConfig (described opts) <;> rw [hvalid] at h <;> cases h
      · exact hshows
      · rw [hhelp, hversion] at h
        cases h
  · intro h
    obtain ⟨opts, hshows⟩ := parseCommandLine_of_shows h
    unfold command
    rw [hshows _ rfl]
    rfl

theorem command_version_iff {args : List Bytes} :
    command args = .version ↔ Shows .version args := by
  constructor
  · intro h
    unfold command at h
    split at h
    · cases h
    next config hparsed =>
      rcases parseCommandLine_ok hparsed with ⟨opts, -, -, rfl⟩ | ⟨-, hhelp⟩ | ⟨hshows, -⟩
      · cases hvalid : validateConfig (described opts) <;> rw [hvalid] at h <;> cases h
      · rw [hhelp] at h
        cases h
      · exact hshows
  · intro h
    obtain ⟨opts, hshows⟩ := parseCommandLine_of_shows h
    unfold command
    rw [hshows _ rfl]
    rfl

/-- **What the program does with its arguments.** It starts a run exactly for the command lines that
spell readable options with all that is required among them, and the run is the one the last
options of each kind describe. It shows help, or its version, exactly where this is asked for
behind readable options and words. All else is a usage error. -/
theorem command_outcome (args : List Bytes) :
    (∀ cfg, command args = .run cfg ↔
      ∃ opts, CommandLine args opts ∧ (∀ o ∈ opts, o.Readable) ∧ (described opts).Runnable ∧
        cfg = { described opts with path := completePath (described opts) }) ∧
      (command args = .help ↔ Shows .help args) ∧
      (command args = .version ↔ Shows .version args) :=
  ⟨fun _ => command_run_iff, command_help_iff, command_version_iff⟩

/-- Long names may be cut short, and arguments joined. -/
example : command [ascii "--req=2", ascii "-c5", ascii "-h", ascii "x", ascii "--po", ascii "80"]
    = .run
        { concurrency := 5, requests := 2, hasRequests := true, host := ascii "x", port := 80 } :=
  rfl

end TitanBench
