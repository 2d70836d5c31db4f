import TitanBench.Args
import TitanBench.Quota

/-!
# Arithmetic on the configuration

The options take every positive `int`, and three places compute with them in `int`.

**What is wrong.** The product with 200 and the sum with 60 are beyond `int` near its end, where
C++ gives no result at all.

* `int32` — an operation on `int`: its result, `none` where it overflows.
* `CliConfig.Exact` — nothing overflows, and the interval and the guard are what they should be.
* `exact_iff` — up to which concurrency and duration that is the case.
-/

namespace TitanBench

/-- The result of an operation on `int`, `none` where it overflows. -/
def int32 (value : ℤ) : Option ℤ :=
  if -intMax - 1 ≤ value ∧ value ≤ intMax then some value else none

namespace Config

/-- `rate_interval_ns`, as the constructor of `SharedState` computes it. -/
def sharedInterval (cfg : Config) : Option ℤ :=
  (int32 (cfg.concurrency * 200)).map fun product =>
    let smoothRps := max 1 product
    let interval := 1000000000 / smoothRps
    max 1 interval

/-- What the event loop of worker `i` reserves in its session map. -/
def reserved (cfg : Config) (i : ℕ) : Option ℤ := int32 (cfg.perWorker i * 2)

/-- `guard_seconds` of the watchdog. -/
def guardSeconds (cfg : Config) : Option ℤ :=
  if cfg.hasDuration then int32 (cfg.durationSeconds + 60) else some 3600

/-- None of the operations overflows, and the results are the intended ones. -/
structure Exact (cfg : Config) : Prop where
  interval : cfg.sharedInterval = some (max 1 (1000000000 / (200 * cfg.concurrency)))
  reserve : cfg.protocol ≠ .https → ∀ i < cfg.workers, ∃ n, cfg.reserved i = some n
  guard : ∃ seconds, cfg.guardSeconds = some seconds ∧ cfg.durationSeconds < seconds

end Config

theorem int32_eq_some_iff {value result : ℤ} :
    int32 value = some result ↔ -intMax - 1 ≤ value ∧ value ≤ intMax ∧ result = value := by
  unfold int32
  split_ifs with h
  · simp [h, eq_comm]
  · simp only [false_iff]
    exact fun hr => h ⟨hr.1, hr.2.1⟩

/-- Without an overflow the interval is the one the run waits for. -/
theorem sharedInterval_eq {cfg : Config} {interval : ℤ} (h : cfg.sharedInterval = some interval) :
    interval = cfg.rateIntervalNs := by
  obtain ⟨product, hproduct, rfl⟩ := Option.map_eq_some_iff.mp h
  obtain ⟨-, -, rfl⟩ := int32_eq_some_iff.mp hproduct
  rfl

theorem perWorker_le (cfg : Config) (i : ℕ) : cfg.perWorker i ≤ cfg.concurrency.toNat := by
  have hle : cfg.perWorker i ≤ (List.range cfg.concurrency.toNat).length := List.countP_le_length
  rwa [List.length_range] at hle

theorem interval_iff {cfg : Config} (hpos : 0 < cfg.concurrency) :
    cfg.sharedInterval = some (max 1 (1000000000 / (200 * cfg.concurrency))) ↔
      cfg.concurrency ≤ 10737418 := by
  constructor
  · intro h
    obtain ⟨product, hproduct, -⟩ := Option.map_eq_some_iff.mp h
    obtain ⟨-, hle, -⟩ := int32_eq_some_iff.mp hproduct
    unfold intMax at hle
    omega
  · intro h
    have hproduct : int32 (cfg.concurrency * 200) = some (cfg.concurrency * 200) := by
      apply int32_eq_some_iff.mpr
      unfold intMax
      omega
    have hmax : max 1 (cfg.concurrency * 200) = 200 * cfg.concurrency := by omega
    simp [Config.sharedInterval, hproduct, hmax]

theorem reserved_isSome {cfg : Config} (hle : cfg.concurrency ≤ 10737418) (i : ℕ) :
    ∃ n, cfg.reserved i = some n := by
  refine ⟨_, int32_eq_some_iff.mpr ⟨?_, ?_, rfl⟩⟩
  · unfold intMax
    omega
  · have := perWorker_le cfg i
    unfold intMax
    omega

theorem guard_iff {cfg : CliConfig} (hr : cfg.Ranged) :
    (∃ seconds, cfg.guardSeconds = some seconds ∧ cfg.durationSeconds < seconds) ↔
      (cfg.hasDuration = true → cfg.durationSeconds ≤ 2147483587) := by
  have hrange := hr.duration
  unfold intMax at hrange
  by_cases hduration : cfg.hasDuration = true
  · simp only [Config.guardSeconds, hduration, if_true, int32_eq_some_iff, intMax, forall_const]
    constructor
    · rintro ⟨seconds, ⟨-, hle, -⟩, -⟩
      omega
    · intro hle
      exact ⟨_, ⟨by omega, by omega, rfl⟩, by omega⟩
  · have hzero : ¬ 0 < cfg.durationSeconds := fun h => hduration (hr.hasDuration.mpr h)
    have hguard : cfg.guardSeconds = some 3600 := by simp [Config.guardSeconds, hduration]
    constructor
    · intro _ h
      exact absurd h hduration
    · intro _
      exact ⟨3600, hguard, by omega⟩

/-- **Exactly up to these bounds nothing overflows** in a run of an accepted configuration. -/
theorem exact_iff {cfg : CliConfig} (h : Accepted cfg) (hpos : 0 < cfg.concurrency) :
    cfg.Exact ↔
      cfg.concurrency ≤ 10737418 ∧
        (cfg.hasDuration = true → cfg.durationSeconds ≤ 2147483587) := by
  constructor
  · rintro ⟨hinterval, -, hguard⟩
    exact ⟨(interval_iff hpos).mp hinterval, (guard_iff h.ranged).mp hguard⟩
  · rintro ⟨hconcurrency, hduration⟩
    exact ⟨(interval_iff hpos).mpr hconcurrency, fun _ i _ => reserved_isSome hconcurrency i,
      (guard_iff h.ranged).mpr hduration⟩

/-- What `-c`, `-t 10 -h h -P 80` is. -/
def loadConfig (concurrency : ℤ) : CliConfig :=
  { concurrency := concurrency
    durationSeconds := 10
    hasDuration := true
    host := ascii "h"
    port := 80 }

theorem loadConfig_accepted {text : Bytes} {concurrency : ℤ}
    (h : parsePositiveInt text = some concurrency) : Accepted (loadConfig concurrency) := by
  have hten : parsePositiveInt (ascii "10") = some 10 := by decide
  have hport : parsePort (ascii "80") = some 80 := by decide
  have hpos := (parsePositiveInt_range h).1
  refine ⟨false, [.concurrency text, .time (ascii "10"), .host (ascii "h"), .port (ascii "80")],
    loadConfig concurrency, ?_, ?_⟩
  · simp [parseArgs, parseOption, store, h, hten, hport, loadConfig]
  · simp [validateConfig, completePath, loadConfig, ascii, hpos]

/-- The largest concurrency whose product with 200 is an `int`. -/
theorem exact_largest : (loadConfig 10737418).Exact :=
  (exact_iff (@loadConfig_accepted (ascii "10737418") _ (by decide)) (by decide)).mpr
    ⟨by decide, by decide⟩

/-- The next concurrency is accepted, too. -/
theorem exact_next :
    ¬ ∀ cfg : CliConfig, Accepted cfg → 0 < cfg.concurrency → cfg.Exact := by
  intro h
  have hnext := h (loadConfig 10737419) (@loadConfig_accepted (ascii "10737419") _ (by decide))
    (by decide)
  exact absurd ((interval_iff (by decide)).mp hnext.interval) (by decide)

end TitanBench
