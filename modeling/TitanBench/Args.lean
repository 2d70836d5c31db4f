import TitanBench.Config

/-!
# The command line

`ParseArgs` gets the options from `getopt_long`, one call after the other. These answers are the
input here (`Opt`), with whether positional arguments are left behind the options.

* `parseArgs` — the loop over the options. `--help` and `--version` end it at once.
* `validateConfig` — the check of the whole, which also completes the path.
* `Accepted` — the configurations that pass both.

What one option keeps (`CliConfig.Ranged`, `parseOption_ranged`) holds of everything that is
parsed, and `Accepted.runnable` is what an engine can rely on.
-/

namespace TitanBench

/-- The configuration with the flags that only the command line reads. -/
structure CliConfig extends Config where
  showHelp : Bool := false
  showVersion : Bool := false
  deriving DecidableEq

/-! ## Numbers -/

/-- `std::stoll` in base 10: the value and the unread rest, `none` when it throws. -/
def stoll (input : Bytes) : Option (ℤ × Bytes) :=
  let text := input.dropWhile isSpace
  let negative := text.head? = some 45
  let text := if negative ∨ text.head? = some 43 then text.tail else text
  let ds := text.takeWhile isDigit
  let value : ℤ := if negative then -(decimal ds : ℤ) else decimal ds
  if ds = [] ∨ value < -2 ^ 63 ∨ 2 ^ 63 ≤ value then none
  else some (value, text.dropWhile isDigit)

def intMax : ℤ := 2147483647

def parsePositiveInt (input : Bytes) : Option ℤ :=
  if input = [] then none
  else
    match stoll input with
    | some (parsed, []) => if parsed ≤ 0 ∨ parsed > intMax then none else some parsed
    | _ => none

def parsePositiveInt64 (input : Bytes) : Option ℤ :=
  if input = [] then none
  else
    match stoll input with
    | some (parsed, []) => if parsed ≤ 0 then none else some parsed
    | _ => none

def parsePort (input : Bytes) : Option ℤ :=
  match parsePositiveInt input with
  | some port => if port > 65535 then none else some port
  | none => none

theorem stoll_lt {input rest : Bytes} {value : ℤ} (h : stoll input = some (value, rest)) :
    value < 2 ^ 63 := by
  unfold stoll at h
  extract_lets text negative text' ds value' at h
  split_ifs at h with hbad
  simp only [Option.some.injEq, Prod.mk.injEq] at h
  omega

theorem parsePositiveInt_range {input : Bytes} {n : ℤ} (h : parsePositiveInt input = some n) :
    0 < n ∧ n ≤ intMax := by
  unfold parsePositiveInt at h
  split_ifs at h
  split at h
  · split_ifs at h
    cases h
    omega
  · cases h

theorem parsePositiveInt64_range {input : Bytes} {n : ℤ} (h : parsePositiveInt64 input = some n) :
    0 < n ∧ n < 2 ^ 63 := by
  unfold parsePositiveInt64 at h
  split_ifs at h
  split at h
  next hstoll =>
    split_ifs at h
    cases h
    exact ⟨by omega, stoll_lt hstoll⟩
  · cases h

theorem parsePort_range {input : Bytes} {n : ℤ} (h : parsePort input = some n) :
    0 < n ∧ n ≤ 65535 := by
  unfold parsePort at h
  split at h
  next hport =>
    split_ifs at h
    cases h
    exact ⟨(parsePositiveInt_range hport).1, by omega⟩
  · cases h

/-! ## Options -/

def parseProtocol (protocolText : Bytes) : Option Protocol :=
  if protocolText = ascii "http" then some .http
  else if protocolText = ascii "https" then some .https
  else if protocolText = ascii "tcp" then some .tcp
  else if protocolText = ascii "udp" then some .udp
  else none

/-- What a call of `getopt_long` finds: an option with its argument, or none that it knows. -/
inductive Opt
  | concurrency (optarg : Bytes)
  | requests (optarg : Bytes)
  | time (optarg : Bytes)
  | threads (optarg : Bytes)
  | protocol (optarg : Bytes)
  | host (optarg : Bytes)
  | port (optarg : Bytes)
  | path (optarg : Bytes)
  | help
  | version
  | malformed
  | unexpected

/-- An option whose argument has to be read: the value is stored, or the error is set. -/
def store {α : Type*} (value : Option α) (msg : String) (set : α → CliConfig) :
    Except String (CliConfig × Bool) :=
  match value with
  | some v => .ok (set v, false)
  | none => .error msg

/-- The body of the option loop, with whether `ParseArgs` returns at once. -/
def parseOption (config : CliConfig) : Opt → Except String (CliConfig × Bool)
  | .concurrency optarg =>
    store (parsePositiveInt optarg) "invalid value for --concurrency" fun n =>
      { config with concurrency := n }
  | .requests optarg =>
    store (parsePositiveInt64 optarg) "invalid value for --requests" fun n =>
      { config with requests := n, hasRequests := true }
  | .time optarg =>
    store (parsePositiveInt optarg) "invalid value for --time" fun n =>
      { config with durationSeconds := n, hasDuration := true }
  | .threads optarg =>
    store (parsePositiveInt optarg) "invalid value for --threads" fun n =>
      { config with threads := n }
  | .protocol optarg =>
    store (parseProtocol optarg) "invalid value for --protocol, expected http/https/tcp/udp"
      fun protocol => { config with protocol := protocol }
  | .host optarg => .ok ({ config with host := optarg }, false)
  | .port optarg =>
    store (parsePort optarg) "invalid value for --port" fun port => { config with port := port }
  | .path optarg => .ok ({ config with path := optarg }, false)
  | .help => .ok ({ config with showHelp := true }, true)
  | .version => .ok ({ config with showVersion := true }, true)
  | .malformed => .error "unknown or malformed option"
  | .unexpected => .error "unexpected argument parsing failure"

/-- `positional` tells whether arguments are left behind the options. -/
def parseArgs (positional : Bool) : List Opt → CliConfig → Except String CliConfig
  | [], config => if positional then .error "unexpected positional arguments" else .ok config
  | opt :: opts, config =>
    match parseOption config opt with
    | .error msg => .error msg
    | .ok (config, true) => .ok config
    | .ok (config, false) => parseArgs positional opts config

/-- The path that `ValidateConfig` puts into the configuration. -/
def completePath (config : CliConfig) : Bytes :=
  let path := if config.path = [] then [slash] else config.path
  if (config.protocol = .http ∨ config.protocol = .https) ∧ path.head? ≠ some slash
  then slash :: path else path

def validateConfig (config : CliConfig) : Except String CliConfig :=
  if config.showHelp ∨ config.showVersion then .ok config
  else if config.concurrency ≤ 0 then .error "missing required option: --concurrency"
  else if config.host = [] then .error "missing required option: --host"
  else if config.port ≤ 0 then .error "missing required option: --port"
  else if config.hasRequests = config.hasDuration then
    .error "either --requests or --time must be set, but not both"
  else .ok { config with path := completePath config }

/-- The configurations that `ParseArgs` produces and `ValidateConfig` accepts. -/
def Accepted (cfg : CliConfig) : Prop :=
  ∃ positional opts parsed,
    parseArgs positional opts {} = .ok parsed ∧ validateConfig parsed = .ok cfg

/-! ## Ranges -/

/-- The ranges of the numbers, and which of them are given. -/
structure CliConfig.Ranged (config : CliConfig) : Prop where
  concurrency : 0 ≤ config.concurrency ∧ config.concurrency ≤ intMax
  requests : 0 ≤ config.requests ∧ config.requests < 2 ^ 63
  duration : 0 ≤ config.durationSeconds ∧ config.durationSeconds ≤ intMax
  threads : 0 < config.threads ∧ config.threads ≤ intMax
  port : 0 ≤ config.port ∧ config.port ≤ 65535
  hasRequests : config.hasRequests = true ↔ 0 < config.requests
  hasDuration : config.hasDuration = true ↔ 0 < config.durationSeconds

theorem CliConfig.ranged_default : ({} : CliConfig).Ranged := by
  constructor <;> simp [intMax]

theorem store_ok {α : Type*} {value : Option α} {msg : String} {set : α → CliConfig}
    {config : CliConfig} {stop : Bool} (h : store value msg set = .ok (config, stop)) :
    ∃ v, value = some v ∧ config = set v := by
  cases value with
  | none => cases h
  | some v =>
    cases h
    exact ⟨v, rfl, rfl⟩

theorem parseOption_ranged {config config' : CliConfig} {opt : Opt} {stop : Bool}
    (hr : config.Ranged) (h : parseOption config opt = .ok (config', stop)) : config'.Ranged := by
  cases opt with
  | concurrency optarg =>
    obtain ⟨n, hn, rfl⟩ := store_ok h
    have hrange := parsePositiveInt_range hn
    exact { hr with concurrency := ⟨hrange.1.le, hrange.2⟩ }
  | requests optarg =>
    obtain ⟨n, hn, rfl⟩ := store_ok h
    have hrange := parsePositiveInt64_range hn
    exact { hr with
      requests := ⟨hrange.1.le, hrange.2⟩
      hasRequests := by simpa using hrange.1 }
  | time optarg =>
    obtain ⟨n, hn, rfl⟩ := store_ok h
    have hrange := parsePositiveInt_range hn
    exact { hr with
      duration := ⟨hrange.1.le, hrange.2⟩
      hasDuration := by simpa using hrange.1 }
  | threads optarg =>
    obtain ⟨n, hn, rfl⟩ := store_ok h
    exact { hr with threads := parsePositiveInt_range hn }
  | protocol optarg =>
    obtain ⟨protocol, -, rfl⟩ := store_ok h
    exact { hr with }
  | port optarg =>
    obtain ⟨port, hport, rfl⟩ := store_ok h
    have hrange := parsePort_range hport
    exact { hr with port := ⟨hrange.1.le, hrange.2⟩ }
  | host optarg =>
    cases h
    exact { hr with }
  | path optarg =>
    cases h
    exact { hr with }
  | help =>
    cases h
    exact { hr with }
  | version =>
    cases h
    exact { hr with }
  | malformed => cases h
  | unexpected => cases h

theorem parseArgs_ranged {positional : Bool} {opts : List Opt} {config config' : CliConfig}
    (hr : config.Ranged) (h : parseArgs positional opts config = .ok config') :
    config'.Ranged := by
  induction opts generalizing config with
  | nil =>
    rw [parseArgs] at h
    split_ifs at h
    cases h
    exact hr
  | cons opt opts ih =>
    rw [parseArgs] at h
    split at h
    · cases h
    next hstep =>
      cases h
      exact parseOption_ranged hr hstep
    next hstep => exact ih (parseOption_ranged hr hstep) h

/-- What `ValidateConfig` lets through. -/
theorem validateConfig_ok {config config' : CliConfig} (h : validateConfig config = .ok config') :
    (config.showHelp = true ∨ config.showVersion = true) ∧ config' = config ∨
      config.showHelp = false ∧ config.showVersion = false ∧ 0 < config.concurrency ∧
        config.host ≠ [] ∧ 0 < config.port ∧ config.hasRequests ≠ config.hasDuration ∧
        config' = { config with path := completePath config } := by
  unfold validateConfig at h
  split_ifs at h with hshow hconcurrency hhost hport hmode
  · cases h
    exact .inl ⟨hshow, rfl⟩
  · cases h
    push Not at hshow
    exact .inr ⟨by simpa using hshow.1, by simpa using hshow.2, by omega, hhost, by omega, hmode,
      rfl⟩

theorem Accepted.ranged {cfg : CliConfig} (h : Accepted cfg) : cfg.Ranged := by
  obtain ⟨positional, opts, parsed, hparsed, hvalid⟩ := h
  have hr := parseArgs_ranged CliConfig.ranged_default hparsed
  rcases validateConfig_ok hvalid with ⟨-, rfl⟩ | ⟨-, -, -, -, -, -, rfl⟩
  · exact hr
  · exact { hr with }

/-- **What a run starts from.** With neither `--help` nor `--version` all that is required is
there, in exactly one of the two modes. -/
structure CliConfig.Runnable (cfg : CliConfig) : Prop where
  concurrency : 0 < cfg.concurrency
  threads : 0 < cfg.threads
  host : cfg.host ≠ []
  port : 0 < cfg.port
  modes : cfg.hasRequests ≠ cfg.hasDuration

theorem Accepted.runnable {cfg : CliConfig} (h : Accepted cfg) (hhelp : cfg.showHelp = false)
    (hversion : cfg.showVersion = false) : cfg.Runnable := by
  have hthreads := h.ranged.threads.1
  obtain ⟨positional, opts, parsed, -, hvalid⟩ := h
  rcases validateConfig_ok hvalid with ⟨hshow, rfl⟩ | ⟨-, -, hc, hhost, hport, hmodes, rfl⟩
  · rw [hhelp, hversion] at hshow
    simp at hshow
  · exact ⟨hc, hthreads, hhost, hport, hmodes⟩

theorem completePath_head {config : CliConfig}
    (h : config.protocol = .http ∨ config.protocol = .https) :
    (completePath config).head? = some slash := by
  unfold completePath
  extract_lets path
  split_ifs with hslash
  · rfl
  · simpa [h] using hslash

theorem Accepted.path_head {cfg : CliConfig} (h : Accepted cfg) (hhelp : cfg.showHelp = false)
    (hversion : cfg.showVersion = false)
    (hprotocol : cfg.protocol = .http ∨ cfg.protocol = .https) :
    cfg.path.head? = some slash := by
  obtain ⟨positional, opts, parsed, -, hvalid⟩ := h
  rcases validateConfig_ok hvalid with ⟨hshow, rfl⟩ | ⟨-, -, -, -, -, -, rfl⟩
  · rw [hhelp, hversion] at hshow
    simp at hshow
  · exact completePath_head hprotocol

/-- In a requests run the engine compares with the number that was asked for. -/
theorem Accepted.quota {cfg : CliConfig} (h : Accepted cfg) : (cfg.quota : ℤ) = cfg.requests :=
  Config.quota_of_nonneg h.ranged.requests.1 h.ranged.requests.2

end TitanBench
