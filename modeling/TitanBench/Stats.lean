import Mathlib.Logic.Function.Basic
import TitanBench.Lib.Rounding

/-!
# Statistics: samples, totals and the snapshot

The totals of a `StatsCollector`, as `RecordFastPath` fills them. Only the thread that drains the
rings touches them, so each update is one step here. Unsigned 64-bit sums are natural numbers,
exact below `2 ^ 64`.

* `normalizePowerOfTwo_eq` — the rounding of a capacity, for every size on which it ends.
* `recordFastPath` — one sample is added to the totals; `Totals.Counts` is kept by it.
* `snapshot` — what a report shows; the two quotients the source computes in `double` are left
  out. A percentile's rank is the integral part of a product of `double`s (`toDouble`).
-/

namespace TitanBench

inductive ErrorClass
  | none
  | connectFailed
  | timeout
  | http4xx
  | http5xx
  | networkIo
  | tlsHandshake
  | parseError
  | other
  deriving DecidableEq, Repr

/-- The value of the enumerator, an index of `errorCounts`. -/
def ErrorClass.index : ErrorClass → ℕ
  | .none => 0
  | .connectFailed => 1
  | .timeout => 2
  | .http4xx => 3
  | .http5xx => 4
  | .networkIo => 5
  | .tlsHandshake => 6
  | .parseError => 7
  | .other => 8

structure RequestSample where
  timestampNs : ℕ := 0
  latencyNs : ℕ := 0
  bytesSent : ℕ := 0
  bytesReceived : ℕ := 0
  httpStatus : ℤ := 0
  success : Bool := false
  error : ErrorClass := .none
  deriving DecidableEq, Repr

structure StatsConfig where
  ringCapacity : ℕ := 4096
  qpsSlotCount : ℕ := 64

def latencyBucketCount : ℕ := 11891
def nsPerUs : ℕ := 1000
def nsPerSecond : ℕ := 1000000000

/-! ## Capacities -/

/-- The doubling loop. `std::size_t` loses the top bit: after 64 rounds `out` is `0` and stays
`0`, so a loop that has not ended by then never ends, and the result is `none`. -/
def doubleUntil (value : ℕ) : ℕ → ℕ → Option ℕ
  | 0, _ => none
  | fuel + 1, out =>
    if out < value then doubleUntil value fuel (out * 2 % 2 ^ 64) else some out

def normalizePowerOfTwo (n minValue : ℕ) : Option ℕ := doubleUntil (max n minValue) 65 1

theorem doubleUntil_pow {value : ℕ} (hv : value ≤ 2 ^ 63) :
    ∀ fuel j, j + fuel = 65 → j ≤ 63 → ∃ k, doubleUntil value fuel (2 ^ j) = some (2 ^ k)
      ∧ value ≤ 2 ^ k := by
  intro fuel
  induction fuel with
  | zero =>
    intro j hj hle
    omega
  | succ fuel ih =>
    intro j hj hle
    unfold doubleUntil
    by_cases hlt : 2 ^ j < value
    · have hj63 : j < 63 := (Nat.pow_lt_pow_iff_right (by decide)).mp (hlt.trans_le hv)
      have hdouble : 2 ^ j * 2 % 2 ^ 64 = 2 ^ (j + 1) := by
        rw [← pow_succ, Nat.mod_eq_of_lt]
        exact Nat.pow_lt_pow_right (by decide) (by omega)
      rw [if_pos hlt, hdouble]
      exact ih (j + 1) (by omega) (by omega)
    · rw [if_neg hlt]
      exact ⟨j, rfl, not_lt.mp hlt⟩

/-- Up to `2 ^ 63` the capacity becomes a power of two that is large enough. -/
theorem normalizePowerOfTwo_eq {n minValue : ℕ} (hn : n ≤ 2 ^ 63) (hm : minValue ≤ 2 ^ 63) :
    ∃ k, normalizePowerOfTwo n minValue = some (2 ^ k) ∧ n ≤ 2 ^ k ∧ minValue ≤ 2 ^ k := by
  obtain ⟨k, hk, hle⟩ := doubleUntil_pow (max_le hn hm) 65 0 rfl (by decide)
  exact ⟨k, hk, (le_max_left _ _).trans hle, (le_max_right _ _).trans hle⟩

/-! ## Buckets -/

def latencyToBucket (latencyNs : ℕ) : ℕ :=
  let latencyUs := latencyNs / nsPerUs
  if latencyUs ≤ 1000 then latencyUs
  else if latencyUs ≤ 100000 then 1000 + (latencyUs - 1000) / 100
  else if latencyUs ≤ 10000000 then 1990 + (latencyUs - 100000) / 1000
  else latencyBucketCount - 1

def bucketToLatencyUpperNs (bucket : ℕ) : ℕ :=
  if bucket ≤ 1000 then bucket * nsPerUs
  else if bucket ≤ 1990 then (1000 + (bucket - 1000) * 100) * nsPerUs
  else (100000 + (bucket - 1990) * 1000) * nsPerUs

theorem latencyToBucket_lt (latencyNs : ℕ) : latencyToBucket latencyNs < latencyBucketCount := by
  unfold latencyToBucket latencyBucketCount
  dsimp only
  split_ifs <;> omega

def errorIndexFromSample (sample : RequestSample) : ℕ :=
  if 500 ≤ sample.httpStatus ∧ sample.httpStatus ≤ 599 then ErrorClass.http5xx.index
  else if 400 ≤ sample.httpStatus ∧ sample.httpStatus ≤ 499 then ErrorClass.http4xx.index
  else sample.error.index

/-! ## Totals -/

structure QpsSlot where
  second : ℕ := 0
  count : ℕ := 0
  deriving DecidableEq

/-- The totals of the collector. -/
structure Totals where
  totalRequests : ℕ := 0
  successRequests : ℕ := 0
  failedRequests : ℕ := 0
  bytesSent : ℕ := 0
  bytesReceived : ℕ := 0
  latencySumNs : ℕ := 0
  minLatencyNs : ℕ := 2 ^ 64 - 1
  maxLatencyNs : ℕ := 0
  droppedSamples : ℕ := 0
  latencyHistogram : ℕ → ℕ := fun _ => 0
  errorCounts : ℕ → ℕ := fun _ => 0
  qpsSlots : ℕ → QpsSlot := fun _ => {}

/-- `fetch_add(1)` on one entry of an array of counters. -/
def bump (counts : ℕ → ℕ) (i : ℕ) : ℕ → ℕ := Function.update counts i (counts i + 1)

/-- `UpdateQps`: a slot that counted another second starts again from zero. -/
def updateQps (qpsMask tsNs : ℕ) (slots : ℕ → QpsSlot) : ℕ → QpsSlot :=
  let sec := tsNs / nsPerSecond
  let i := sec &&& qpsMask
  let slot := if (slots i).second ≠ sec then { second := sec, count := 0 } else slots i
  Function.update slots i { slot with count := slot.count + 1 }

/-- One sample is added to the totals; `nowNs` stands in for a missing timestamp. -/
def recordFastPath (qpsMask nowNs : ℕ) (sample : RequestSample) (t : Totals) : Totals :=
  { t with
    totalRequests := t.totalRequests + 1
    successRequests := if sample.success then t.successRequests + 1 else t.successRequests
    failedRequests := if sample.success then t.failedRequests else t.failedRequests + 1
    errorCounts :=
      bump t.errorCounts
        (if sample.success then ErrorClass.none.index else errorIndexFromSample sample)
    bytesSent := t.bytesSent + sample.bytesSent
    bytesReceived := t.bytesReceived + sample.bytesReceived
    latencySumNs := t.latencySumNs + sample.latencyNs
    latencyHistogram := bump t.latencyHistogram (latencyToBucket sample.latencyNs)
    minLatencyNs := if sample.latencyNs < t.minLatencyNs then sample.latencyNs else t.minLatencyNs
    maxLatencyNs := if sample.latencyNs > t.maxLatencyNs then sample.latencyNs else t.maxLatencyNs
    qpsSlots :=
      updateQps qpsMask (if sample.timestampNs = 0 then nowNs else sample.timestampNs) t.qpsSlots }

/-- The totals count exactly the given samples. -/
structure Totals.Counts (t : Totals) (samples : List RequestSample) : Prop where
  total : t.totalRequests = samples.length
  success : t.successRequests = samples.countP (·.success)
  failed : t.failedRequests = samples.countP (!·.success)

theorem Totals.counts_nil : Totals.Counts {} [] := ⟨rfl, rfl, rfl⟩

theorem Totals.Counts.record {t : Totals} {samples : List RequestSample} (h : t.Counts samples)
    (qpsMask nowNs : ℕ) (sample : RequestSample) :
    (recordFastPath qpsMask nowNs sample t).Counts (samples ++ [sample]) := by
  obtain ⟨ht, hs, hf⟩ := h
  constructor
  · simp [recordFastPath, ht]
  · cases hb : sample.success <;> simp [recordFastPath, hs, hb]
  · cases hb : sample.success <;> simp [recordFastPath, hf, hb]

theorem Totals.Counts.of_dropped {t : Totals} {samples : List RequestSample} (h : t.Counts samples)
    (n : ℕ) : Totals.Counts { t with droppedSamples := n } samples :=
  ⟨h.total, h.success, h.failed⟩

/-! ## Snapshot -/

structure StatsSnapshot where
  totalRequests : ℕ := 0
  successRequests : ℕ := 0
  failedRequests : ℕ := 0
  qpsCurrentSecond : ℕ := 0
  avgLatencyNs : ℕ := 0
  minLatencyNs : ℕ := 0
  maxLatencyNs : ℕ := 0
  p50LatencyNs : ℕ := 0
  p95LatencyNs : ℕ := 0
  p99LatencyNs : ℕ := 0
  bytesSent : ℕ := 0
  bytesReceived : ℕ := 0
  errorCounts : ℕ → ℕ := fun _ => 0
  droppedSamples : ℕ := 0
  elapsedNs : ℕ := 0

/-- The percentile loop over the buckets from `i` on. -/
def percentileFrom (t : Totals) (target : ℕ) : ℕ → ℕ → ℕ → ℕ
  | 0, _, _ => bucketToLatencyUpperNs (latencyBucketCount - 1)
  | fuel + 1, i, cumulative =>
    let cumulative := cumulative + t.latencyHistogram i
    if cumulative ≥ target then bucketToLatencyUpperNs i
    else percentileFrom t target fuel (i + 1) cumulative

/-- The `double` nearest to a number, which is nonnegative and not too large for one. -/
def toDouble (q : ℚ) : ℚ := Rounding.roundTo 52 (-1074) q

def getPercentileNs (t : Totals) (pct : ℚ) (total : ℕ) : ℕ :=
  if total = 0 then 0
  else
    let target := ⌊toDouble (pct * toDouble total)⌋₊
    percentileFrom t (if target = 0 then 1 else target) latencyBucketCount 0 0

/-- The part of `Snapshot` after the drain, with its two readings of the clock. -/
def snapshot (qpsMask startNs nowNs laterNs : ℕ) (t : Totals) : StatsSnapshot :=
  let nowSec := laterNs / nsPerSecond
  let slot := t.qpsSlots (nowSec &&& qpsMask)
  let latencies : StatsSnapshot :=
    if t.totalRequests > 0 then
      { avgLatencyNs := t.latencySumNs / t.totalRequests
        minLatencyNs := if t.minLatencyNs = 2 ^ 64 - 1 then 0 else t.minLatencyNs
        maxLatencyNs := t.maxLatencyNs
        p50LatencyNs := getPercentileNs t (toDouble (50 / 100)) t.totalRequests
        p95LatencyNs := getPercentileNs t (toDouble (95 / 100)) t.totalRequests
        p99LatencyNs := getPercentileNs t (toDouble (99 / 100)) t.totalRequests }
    else {}
  { latencies with
    totalRequests := t.totalRequests
    successRequests := t.successRequests
    failedRequests := t.failedRequests
    bytesSent := t.bytesSent
    bytesReceived := t.bytesReceived
    droppedSamples := t.droppedSamples
    elapsedNs := max 1 (nowNs - startNs)
    errorCounts := t.errorCounts
    qpsCurrentSecond := if slot.second = nowSec then slot.count else 0 }

section

variable (qpsMask startNs nowNs laterNs : ℕ) (t : Totals)

@[simp] theorem snapshot_totalRequests :
    (snapshot qpsMask startNs nowNs laterNs t).totalRequests = t.totalRequests := rfl

@[simp] theorem snapshot_successRequests :
    (snapshot qpsMask startNs nowNs laterNs t).successRequests = t.successRequests := rfl

@[simp] theorem snapshot_failedRequests :
    (snapshot qpsMask startNs nowNs laterNs t).failedRequests = t.failedRequests := rfl

@[simp] theorem snapshot_droppedSamples :
    (snapshot qpsMask startNs nowNs laterNs t).droppedSamples = t.droppedSamples := rfl

@[simp] theorem snapshot_bytesReceived :
    (snapshot qpsMask startNs nowNs laterNs t).bytesReceived = t.bytesReceived := rfl

end

end TitanBench
