import TitanBench.ArgsCommand

/-!
# The runs that can be asked for

A configuration is written as a command line with all its options (`Texts.args`), its numbers as
digits (`exists_digits`), and read back unchanged (`command_args`). In the other direction, what any
command line describes has its numbers in range, a complete path and no zero byte.

* `CliConfig.Presentable` — what a configuration must be for some command line to start its run.
* `command_run_exact` — the main result: every such configuration has one, and no other.
-/

namespace TitanBench

open GetOpt

/-! ## Writing a number -/

theorem decimal_append (ds : Bytes) (d : UInt8) :
    decimal (ds ++ [d]) = 10 * decimal ds + (d.toNat - 48) := by
  simp [decimal]

theorem digit_toNat {n : ℕ} (h : n < 10) : (UInt8.ofNat (48 + n)).toNat = 48 + n := by
  rw [UInt8.toNat_ofNat']
  omega

theorem isDigit_digit {n : ℕ} (h : n < 10) : isDigit (UInt8.ofNat (48 + n)) = true := by
  simp only [isDigit, Bool.and_eq_true, decide_eq_true_eq, UInt8.le_iff_toNat_le, digit_toNat h]
  have h48 : (48 : UInt8).toNat = 48 := rfl
  have h57 : (57 : UInt8).toNat = 57 := rfl
  omega

theorem exists_digits (n : ℕ) :
    ∃ ds, ds ≠ [] ∧ (∀ b ∈ ds, isDigit b = true) ∧ decimal ds = n := by
  induction n using Nat.strong_induction_on with
  | _ n ih =>
    have hlast : n % 10 < 10 := Nat.mod_lt _ (by omega)
    have hnum := digit_toNat hlast
    by_cases h : n < 10
    · refine ⟨[UInt8.ofNat (48 + n % 10)], by simp, by simpa using isDigit_digit hlast, ?_⟩
      simp [decimal]
      omega
    · obtain ⟨ds, -, hds, hdecimal⟩ := ih (n / 10) (by omega)
      refine ⟨ds ++ [UInt8.ofNat (48 + n % 10)], by simp, ?_, ?_⟩
      · intro b hb
        rcases List.mem_append.mp hb with hb | hb
        · exact hds b hb
        · rw [List.mem_singleton.mp hb]
          exact isDigit_digit hlast
      · rw [decimal_append, hdecimal, hnum]
        omega

theorem exists_text (n : ℕ) : ∃ text, Writes text n ∧ 0 ∉ text := by
  obtain ⟨ds, hne, hds, hdecimal⟩ := exists_digits n
  refine ⟨ds, ⟨[], [], ds, rfl, by simp, .inl rfl, hne, hds, hdecimal⟩, fun hmem => ?_⟩
  exact absurd (hds 0 hmem) (by decide)

/-! ## A command line for a configuration -/

structure CliConfig.Presentable (cfg : CliConfig) : Prop where
  ranged : cfg.Ranged
  runnable : cfg.Runnable
  help : cfg.showHelp = false
  version : cfg.showVersion = false
  path : completePath cfg = cfg.path
  /-- An argument ends at its first zero byte. -/
  noNul : 0 ∉ cfg.host ∧ 0 ∉ cfg.path

/-- `ProtocolToString`. -/
def protocolToString : Protocol → Bytes
  | .http => ascii "http"
  | .https => ascii "https"
  | .tcp => ascii "tcp"
  | .udp => ascii "udp"

theorem parseProtocol_protocolToString (protocol : Protocol) :
    parseProtocol (protocolToString protocol) = some protocol := by
  cases protocol <;> rfl

/-- Texts for the numbers of a configuration. -/
structure Texts where
  concurrency : Bytes
  requests : Bytes
  time : Bytes
  threads : Bytes
  port : Bytes

namespace Texts

/-- The texts write the numbers, as far as they are given, and can be arguments. -/
structure Of (texts : Texts) (cfg : CliConfig) : Prop where
  concurrency : Writes texts.concurrency cfg.concurrency.toNat
  requests : Writes texts.requests cfg.requests.toNat
  time : Writes texts.time cfg.durationSeconds.toNat
  threads : Writes texts.threads cfg.threads.toNat
  port : Writes texts.port cfg.port.toNat
  noNul : 0 ∉ texts.concurrency ++ texts.requests ++ texts.time ++ texts.threads ++ texts.port

theorem exists_of (cfg : CliConfig) : ∃ texts, Of texts cfg := by
  obtain ⟨concurrency, hconcurrency⟩ := exists_text cfg.concurrency.toNat
  obtain ⟨requests, hrequests⟩ := exists_text cfg.requests.toNat
  obtain ⟨time, htime⟩ := exists_text cfg.durationSeconds.toNat
  obtain ⟨threads, hthreads⟩ := exists_text cfg.threads.toNat
  obtain ⟨port, hport⟩ := exists_text cfg.port.toNat
  refine ⟨⟨concurrency, requests, time, threads, port⟩, hconcurrency.1, hrequests.1, htime.1,
    hthreads.1, hport.1, ?_⟩
  simp [hconcurrency.2, hrequests.2, htime.2, hthreads.2, hport.2]

variable (texts : Texts) (cfg : CliConfig)

/-- The option for the end of the run. -/
def mode : Opt := if cfg.hasRequests then .requests texts.requests else .time texts.time

def opts : List Opt :=
  [.concurrency texts.concurrency, texts.mode cfg, .threads texts.threads,
    .protocol (protocolToString cfg.protocol), .host cfg.host, .port texts.port, .path cfg.path]

/-- The command line with all of these options, the short ones by their letters. -/
def args : List Bytes :=
  [ascii "-c", texts.concurrency] ++
    (if cfg.hasRequests then [ascii "-n", texts.requests] else [ascii "-t", texts.time]) ++
    [ascii "-T", texts.threads, ascii "-p", protocolToString cfg.protocol, ascii "-h", cfg.host,
      ascii "-P", texts.port, ascii "--path", cfg.path]

theorem reads_short {c : UInt8} (h : cliOptions.short c = some c.toNat) (hc : c ≠ 45)
    (arg : Bytes) {args : List Bytes} {found : List (Found UInt8 ℕ)} {words : Bool}
    (hargs : cliOptions.Reads args found words) :
    cliOptions.Reads ([45, c] :: arg :: args) ((c.toNat, some arg) :: found) words :=
  .option (.short h hc arg) hargs

theorem commandLine : CommandLine (texts.args cfg) (texts.opts cfg) := by
  have hpath : cliOptions.Reads [ascii "--path", cfg.path] [(1000, some cfg.path)] false :=
    .option (.long (o := ⟨ascii "path", true, 1000⟩) ⟨rfl, by decide⟩ (by decide) rfl cfg.path) .nil
  have htail := reads_short (c := 84) rfl (by decide) texts.threads
    (reads_short (c := 112) rfl (by decide) (protocolToString cfg.protocol)
      (reads_short (c := 104) rfl (by decide) cfg.host
        (reads_short (c := 80) rfl (by decide) texts.port hpath)))
  unfold args opts mode
  split_ifs
  · exact ⟨_, _, reads_short (c := 99) rfl (by decide) texts.concurrency
      (reads_short (c := 110) rfl (by decide) texts.requests htail), .inl rfl, rfl⟩
  · exact ⟨_, _, reads_short (c := 99) rfl (by decide) texts.concurrency
      (reads_short (c := 116) rfl (by decide) texts.time htail), .inl rfl, rfl⟩

variable {texts cfg}

theorem opts_readable (h : texts.Of cfg) (hcfg : cfg.Presentable) :
    ∀ o ∈ texts.opts cfg, o.Readable := by
  have hr := hcfg.ranged
  have hrun := hcfg.runnable
  have hmode : (texts.mode cfg).Readable := by
    unfold mode
    split_ifs with hrequests
    · have hpos := hr.hasRequests.mp hrequests
      exact ⟨_, h.requests, by omega, by have := hr.requests.2; omega⟩
    · have hduration : cfg.hasDuration = true := by
        have hne := hrun.modes
        rw [Bool.not_eq_true] at hrequests
        rw [hrequests] at hne
        simpa using hne.symm
      have hpos := hr.hasDuration.mp hduration
      exact ⟨_, h.time, by omega, by have := hr.duration.2; omega⟩
  have hconcurrency := hrun.concurrency
  have hport := hrun.port
  unfold opts
  simp only [List.forall_mem_cons, List.not_mem_nil, IsEmpty.forall_iff, implies_true, and_true]
  refine ⟨⟨_, h.concurrency, by omega, ?_⟩, hmode, ⟨_, h.threads, ?_, ?_⟩, ?_, trivial,
    ⟨_, h.port, by omega, ?_⟩, trivial⟩
  · have := hr.concurrency.2
    omega
  · have := hr.threads.1
    omega
  · have := hr.threads
    omega
  · exact Option.isSome_iff_exists.mpr ⟨_, parseProtocol_protocolToString cfg.protocol⟩
  · have := hr.port
    omega

/-- The mode that is not asked for has its default. -/
theorem modes_exclusive (h : cfg.Presentable) :
    cfg.hasRequests = true ∧ cfg.hasDuration = false ∧ cfg.durationSeconds = 0 ∨
      cfg.hasRequests = false ∧ cfg.hasDuration = true ∧ cfg.requests = 0 := by
  have hr := h.ranged
  have hne := h.runnable.modes
  cases hrequests : cfg.hasRequests with
  | true =>
    have hduration : cfg.hasDuration = false := by
      rw [hrequests] at hne
      simpa using hne.symm
    have hzero : ¬ 0 < cfg.durationSeconds := fun hpos => by
      simp [hr.hasDuration.mpr hpos] at hduration
    exact .inl ⟨rfl, hduration, by have := hr.duration.1; omega⟩
  | false =>
    have hduration : cfg.hasDuration = true := by
      rw [hrequests] at hne
      simpa using hne.symm
    have hzero : ¬ 0 < cfg.requests := fun hpos => by simp [hr.hasRequests.mpr hpos] at hrequests
    exact .inr ⟨rfl, hduration, by have := hr.requests.1; omega⟩

theorem lastOf_cons {β : Type*} (read : Opt → Option β) (o : Opt) (opts : List Opt) :
    lastOf read (o :: opts) = (lastOf read opts).or (read o) := by
  unfold lastOf
  cases h : read o with
  | none => rw [List.filterMap_cons_none h, Option.or_none]
  | some v =>
    rw [List.filterMap_cons_some h, List.getLast?_cons]
    cases (opts.filterMap read).getLast? <;> rfl

theorem described_opts (h : texts.Of cfg) (hcfg : cfg.Presentable) :
    described (texts.opts cfg) = cfg := by
  have hr := hcfg.ranged
  have hrun := hcfg.runnable
  have hconcurrency := parsePositiveInt_iff.mpr
    ⟨h.concurrency, hrun.concurrency, hr.concurrency.2⟩
  have hthreads := parsePositiveInt_iff.mpr ⟨h.threads, hrun.threads, hr.threads.2⟩
  have hport := parsePort_iff.mpr ⟨h.port, hrun.port, hr.port.2⟩
  have hprotocol := parseProtocol_protocolToString cfg.protocol
  have hhelp := hcfg.help
  have hversion := hcfg.version
  rcases modes_exclusive hcfg with ⟨hmode, hduration, hzero⟩ | ⟨hmode, hduration, hzero⟩
  · have hrequests := parsePositiveInt64_iff.mpr
      ⟨h.requests, hr.hasRequests.mp hmode, hr.requests.2⟩
    rcases cfg with ⟨⟨c, n, t, T, p, host, P, path, hn, ht⟩, help, version⟩
    simp_all [described, opts, mode, lastOf_cons]
  · have htime := parsePositiveInt_iff.mpr
      ⟨h.time, hr.hasDuration.mp hduration, hr.duration.2⟩
    rcases cfg with ⟨⟨c, n, t, T, p, host, P, path, hn, ht⟩, help, version⟩
    simp_all [described, opts, mode, lastOf_cons]

theorem noNul_args (h : texts.Of cfg) (hcfg : cfg.Presentable) :
    ∀ arg ∈ texts.args cfg, 0 ∉ arg := by
  have htexts := h.noNul
  have hprotocol : 0 ∉ protocolToString cfg.protocol := by cases cfg.protocol <;> decide
  simp only [List.mem_append, not_or] at htexts
  unfold args
  split_ifs <;> simp_all [hcfg.noNul, ascii]

/-- A configuration written out option by option is read back unchanged. -/
theorem command_args (h : texts.Of cfg) (hcfg : cfg.Presentable) :
    command (texts.args cfg) = .run cfg := by
  refine command_run_iff.mpr
    ⟨texts.opts cfg, texts.commandLine cfg, opts_readable h hcfg, ?_⟩
  rw [described_opts h hcfg, hcfg.path]
  exact ⟨hcfg.runnable, rfl⟩

end Texts

/-! ## What a command line can give -/

theorem completePath_idem (config : CliConfig) :
    completePath { config with path := completePath config } = completePath config := by
  have hne : completePath config ≠ [] := by
    unfold completePath
    extract_lets path
    have hpath : path ≠ [] := by
      show (if config.path = [] then [slash] else config.path) ≠ []
      split_ifs with h
      · exact List.cons_ne_nil _ _
      · exact h
    split_ifs
    · exact List.cons_ne_nil _ _
    · exact hpath
  rw [completePath, if_neg hne, if_neg]
  rintro ⟨hprotocol, hhead⟩
  exact hhead (completePath_head hprotocol)

theorem noNul_completePath {config : CliConfig} (h : 0 ∉ config.path) :
    0 ∉ completePath config := by
  have hslash : (0 : UInt8) ∉ [slash] := by decide
  unfold completePath
  extract_lets path
  have hpath : 0 ∉ path := by
    show 0 ∉ (if config.path = [] then [slash] else config.path)
    split_ifs
    · exact hslash
    · exact h
  split_ifs
  · exact List.not_mem_cons_of_ne_of_not_mem (by decide) hpath
  · exact hpath

theorem mem_of_lastOf {β : Type*} {read : Opt → Option β} {opts : List Opt} {v : β}
    (h : lastOf read opts = some v) : ∃ o ∈ opts, read o = some v :=
  List.mem_filterMap.mp (List.mem_of_getLast? h)

def Opt.optarg : Opt → Bytes
  | .concurrency optarg | .requests optarg | .time optarg | .threads optarg | .protocol optarg
  | .host optarg | .port optarg | .path optarg => optarg
  | _ => []

theorem optarg_caseOf (c : ℕ) (optarg : Bytes) :
    (caseOf c optarg).optarg = optarg ∨ (caseOf c optarg).optarg = [] := by
  have hite : ∀ {p : Prop} [Decidable p] {o : Opt}, (o.optarg = optarg ∨ o.optarg = []) →
      ∀ o', o'.optarg = optarg ∨ o'.optarg = [] →
        (if p then o' else o).optarg = optarg ∨ (if p then o' else o).optarg = [] := by
    intro p _ o ho o' ho'
    split_ifs
    · exact ho'
    · exact ho
  unfold caseOf
  iterate 11 refine hite ?_ _ (by first | exact .inl rfl | exact .inr rfl)
  exact .inr rfl

theorem noNul_optarg {args : List Bytes} {opts : List Opt} (hline : CommandLine args opts)
    (hargs : ∀ arg ∈ args, 0 ∉ arg) : ∀ o ∈ opts, 0 ∉ o.optarg := by
  obtain ⟨pre, found, hreads, hpre, rfl⟩ := hline
  have hpre' : ∀ w ∈ pre, ∀ b ∈ w, b ≠ 0 := by
    intro w hw b hb heq
    rcases hpre with rfl | rfl
    · exact hargs w hw (heq ▸ hb)
    · exact hargs w (List.mem_append_left _ hw) (heq ▸ hb)
  intro o ho hmem
  obtain ⟨⟨c, optarg⟩, hf, rfl⟩ := List.mem_map.mp ho
  have hcase : 0 ∈ (caseOf c (optarg.getD [])).optarg := hmem
  rcases optarg_caseOf c (optarg.getD []) with h | h
  · rw [h] at hcase
    cases optarg with
    | none => exact List.not_mem_nil hcase
    | some optarg => exact hreads.forall_arg hpre' _ hf optarg rfl 0 hcase rfl
  · rw [h] at hcase
    exact List.not_mem_nil hcase

theorem noNul_described {opts : List Opt} (h : ∀ o ∈ opts, 0 ∉ o.optarg) :
    0 ∉ (described opts).host ∧ 0 ∉ (described opts).path := by
  constructor
  · cases hlast : lastOf Opt.readHost opts with
    | none => simp [described, hlast]
    | some host =>
      obtain ⟨o, ho, hread⟩ := mem_of_lastOf hlast
      have hnul := h o ho
      cases o with
      | host optarg =>
        cases hread
        simpa [described, hlast, Opt.optarg] using hnul
      | _ => cases hread
  · cases hlast : lastOf Opt.readPath opts with
    | none => simp [described, hlast, slash]
    | some path =>
      obtain ⟨o, ho, hread⟩ := mem_of_lastOf hlast
      have hnul := h o ho
      cases o with
      | path optarg =>
        cases hread
        simpa [described, hlast, Opt.optarg] using hnul
      | _ => cases hread

/-- **The runs that can be asked for.** A run of a configuration is started by some command line
exactly when its numbers are in range, all that is required is there in one mode, the path is
complete and neither host nor path has a zero byte. -/
theorem command_run_exact (cfg : CliConfig) :
    (∃ args, (∀ arg ∈ args, 0 ∉ arg) ∧ command args = .run cfg) ↔ cfg.Presentable := by
  constructor
  · rintro ⟨args, hnul, hrun⟩
    obtain ⟨opts, hline, hopts, hrunnable, rfl⟩ := command_run_iff.mp hrun
    have hclean := noNul_described (noNul_optarg hline hnul)
    exact {
      ranged := { described_ranged hopts with }
      runnable := { hrunnable with }
      help := rfl
      version := rfl
      path := completePath_idem _
      noNul := ⟨hclean.1, noNul_completePath hclean.2⟩ }
  · intro h
    obtain ⟨texts, htexts⟩ := Texts.exists_of cfg
    exact ⟨texts.args cfg, Texts.noNul_args htexts h, Texts.command_args htexts h⟩

end TitanBench
