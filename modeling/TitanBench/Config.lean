import Mathlib.Data.List.Range
import TitanBench.Http

/-!
# Benchmark configuration

`int` and `std::int64_t` fields are integers. The command line accepts only positive values for
the numeric options; the engine itself checks `concurrency` and `threads`.

* `Config.quota` — the number of requests of a requests-mode run, as the engine compares it.
* `Config.workers`, `Config.perWorker` — how the connections are spread over worker threads.
-/

namespace TitanBench

inductive Protocol
  | http
  | https
  | tcp
  | udp
  deriving DecidableEq, Repr

structure Config where
  concurrency : ℤ := 0
  requests : ℤ := 0
  durationSeconds : ℤ := 0
  threads : ℤ := 1
  protocol : Protocol := .http
  host : Bytes := []
  port : ℤ := 0
  path : Bytes := [slash]
  hasRequests : Bool := false
  hasDuration : Bool := false
  deriving DecidableEq

namespace Config

/-- `static_cast<std::uint64_t>(requests)`. -/
def quota (cfg : Config) : ℕ := (cfg.requests % 2 ^ 64).toNat

theorem quota_of_nonneg {cfg : Config} (h : 0 ≤ cfg.requests) (hmax : cfg.requests < 2 ^ 63) :
    (cfg.quota : ℤ) = cfg.requests := by
  unfold quota
  omega

/-- The number of worker threads `SharedState` settles on. -/
def workers (cfg : Config) : ℕ := (max 1 (min cfg.threads cfg.concurrency)).toNat

/-- The connections of worker `i`: connection `k` goes to worker `k % workers`. -/
def perWorker (cfg : Config) (i : ℕ) : ℕ :=
  (List.range cfg.concurrency.toNat).countP fun k => k % cfg.workers == i

theorem workers_pos (cfg : Config) : 0 < cfg.workers := by
  unfold workers
  omega

theorem perWorker_zero_pos {cfg : Config} (h : 0 < cfg.concurrency) : 0 < cfg.perWorker 0 := by
  refine List.countP_pos_iff.mpr ⟨0, List.mem_range.mpr (by omega), ?_⟩
  simp

end Config

end TitanBench
