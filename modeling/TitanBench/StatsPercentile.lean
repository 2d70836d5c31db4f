import Mathlib.Algebra.Order.Floor.Semifield
import TitanBench.Lib.OrderStat
import TitanBench.StatsTotals

/-!
# Percentiles of the histogram

`GetPercentileNs` scans the histogram for the bucket that holds the sample of the wanted rank, and
returns the edge of that bucket.

* `le_latencyToBucket_iff` — a latency is in bucket `b` or above exactly when it reaches the edge
  of `b`, on all segments of the bucket map.
* `percentileRank_bounds` — the product of `double`s that gives the rank may be rounded up to the
  next integer, and no further.
* `percentileFrom_eq` — the scan finds the bucket of the sample of that rank.
* `Collector.percentile_bucket` — what is returned for the samples drained in a run.
* `Collector.percentile_upper_iff` — when the result is an upper bound: the edge is the lower end
  of the bucket, so only a latency on an edge has it.
* `Collector.latency_ordered_iff` — when the reported minimum is not above the median.
-/

namespace TitanBench

open OrderStat

/-! ## Buckets -/

/-- The segments of the bucket map. -/
theorem latencyToBucket_cases (x : ℕ) :
    x < 1001000 ∧ latencyToBucket x = x / 1000 ∨
    1001000 ≤ x ∧ x < 100001000 ∧ latencyToBucket x = 1000 + (x / 1000 - 1000) / 100 ∨
    100001000 ≤ x ∧ x < 10000001000 ∧ latencyToBucket x = 1990 + (x / 1000 - 100000) / 1000 ∨
    10000001000 ≤ x ∧ latencyToBucket x = 11890 := by
  unfold latencyToBucket latencyBucketCount nsPerUs
  dsimp only
  split_ifs <;> omega

/-- The segments of the edges. -/
theorem bucketToLatencyUpperNs_cases (b : ℕ) :
    b ≤ 1000 ∧ bucketToLatencyUpperNs b = b * 1000 ∨
    1000 < b ∧ b ≤ 1990 ∧ bucketToLatencyUpperNs b = (1000 + (b - 1000) * 100) * 1000 ∨
    1990 < b ∧ bucketToLatencyUpperNs b = (100000 + (b - 1990) * 1000) * 1000 := by
  unfold bucketToLatencyUpperNs nsPerUs
  split_ifs <;> omega

/-- The two bucket functions form a Galois connection. -/
theorem le_latencyToBucket_iff {b x : ℕ} (hb : b < latencyBucketCount) :
    b ≤ latencyToBucket x ↔ bucketToLatencyUpperNs b ≤ x := by
  unfold latencyBucketCount at hb
  have hx := latencyToBucket_cases x
  have he := bucketToLatencyUpperNs_cases b
  omega

theorem latencyToBucket_mono : Monotone latencyToBucket := by
  intro x y hxy
  rw [le_latencyToBucket_iff (latencyToBucket_lt x)]
  exact ((le_latencyToBucket_iff (latencyToBucket_lt x)).mp le_rfl).trans hxy

/-- The edge of a bucket is its lower end. -/
theorem edge_le (x : ℕ) : bucketToLatencyUpperNs (latencyToBucket x) ≤ x :=
  (le_latencyToBucket_iff (latencyToBucket_lt x)).mp le_rfl

theorem bucketToLatencyUpperNs_mono : Monotone bucketToLatencyUpperNs := by
  intro a b hab
  have ha := bucketToLatencyUpperNs_cases a
  have hb := bucketToLatencyUpperNs_cases b
  omega

/-- The width of the bucket a latency up to ten seconds is in. -/
def bucketWidthNs (latencyNs : ℕ) : ℕ :=
  if latencyNs ≤ 1000000 then 1000
  else if latencyNs ≤ 100000000 then 100000
  else 1000000

/-- The largest latency with a bucket of its own: ten seconds. -/
def lastEdgeNs : ℕ := 10000000000

theorem lt_edge_add_width {x : ℕ} (h : x ≤ lastEdgeNs) :
    x < bucketToLatencyUpperNs (latencyToBucket x) + bucketWidthNs x := by
  unfold lastEdgeNs at h
  have hx := latencyToBucket_cases x
  have he := bucketToLatencyUpperNs_cases (latencyToBucket x)
  unfold bucketWidthNs
  split_ifs <;> omega

/-- A latency is on the edge of its bucket exactly when it is a multiple of the width. -/
theorem edge_eq_iff {x : ℕ} (h : x ≤ lastEdgeNs) :
    bucketToLatencyUpperNs (latencyToBucket x) = x ↔ bucketWidthNs x ∣ x := by
  unfold lastEdgeNs at h
  have hx := latencyToBucket_cases x
  have he := bucketToLatencyUpperNs_cases (latencyToBucket x)
  unfold bucketWidthNs
  split_ifs <;> omega

theorem edge_le_last (x : ℕ) : bucketToLatencyUpperNs (latencyToBucket x) ≤ lastEdgeNs := by
  have hlt := latencyToBucket_lt x
  have he := bucketToLatencyUpperNs_cases (latencyToBucket x)
  unfold latencyBucketCount at hlt
  unfold lastEdgeNs
  omega

/-! ## The rank -/

/-- The rank of a percentile among `n` samples, as the product of two `double`s gives it. -/
def percentileRank (pct : ℚ) (n : ℕ) : ℕ := max 1 ⌊toDouble (pct * toDouble n)⌋₊

/-- The rank with the product taken exactly. -/
def exactRank (pct : ℚ) (n : ℕ) : ℕ := max 1 ⌊pct * n⌋₊

theorem percentileRank_pos (pct : ℚ) (n : ℕ) : 0 < percentileRank pct n :=
  Nat.lt_of_lt_of_le Nat.one_pos (le_max_left _ _)

theorem exactRank_pos (pct : ℚ) (n : ℕ) : 0 < exactRank pct n :=
  Nat.lt_of_lt_of_le Nat.one_pos (le_max_left _ _)

theorem toDouble_nonneg {q : ℚ} (h : 0 ≤ q) : 0 ≤ toDouble q := Rounding.roundTo_nonneg h

theorem toDouble_mono {q r : ℚ} (hq : 0 ≤ q) (h : q ≤ r) : toDouble q ≤ toDouble r :=
  Rounding.roundTo_mono hq h

theorem toDouble_natCast {n : ℕ} (h : n < 2 ^ 53) : toDouble n = n :=
  Rounding.roundTo_natCast (by decide) h

theorem toDouble_le_mul {q : ℚ} (h : 1 / 2 ≤ q) : toDouble q ≤ q * (1 + 1 / 2 ^ 53) := by
  refine Rounding.roundTo_le_mul (le_trans ?_ h)
  calc (2 : ℚ) ^ (-1074 + ((52 : ℕ) : ℤ)) ≤ 2 ^ (-1 : ℤ) :=
        zpow_le_zpow_right₀ one_le_two (by decide)
    _ = 1 / 2 := by norm_num

theorem percentileRank_mono {p q : ℚ} (hp : 0 ≤ p) (h : p ≤ q) (n : ℕ) :
    percentileRank p n ≤ percentileRank q n := by
  have hn := toDouble_nonneg (Nat.cast_nonneg (α := ℚ) n)
  refine max_le_max le_rfl (Nat.floor_le_floor (toDouble_mono (mul_nonneg hp hn) ?_))
  exact mul_le_mul_of_nonneg_right h hn

/-- The rank is the exact one, or the next one if the product is rounded up to an integer. -/
theorem percentileRank_bounds {pct : ℚ} {n : ℕ} (hpct : 0 ≤ pct) (hone : pct ≤ 1) (hn : 0 < n)
    (h53 : n < 2 ^ 53) :
    exactRank pct n ≤ percentileRank pct n ∧
      percentileRank pct n ≤ min n (exactRank pct n + 1) := by
  obtain ⟨hlow, hhigh⟩ := @Rounding.natFloor_roundTo ℚ _ _ _ _ 52 (-1074) _ (by decide) n h53
    (mul_nonneg hpct (Nat.cast_nonneg (α := ℚ) n)) (mul_le_of_le_one_left (Nat.cast_nonneg n) hone)
  unfold exactRank percentileRank
  rw [toDouble_natCast h53]
  unfold toDouble
  omega

/-- The rank of the median. -/
theorem percentileRank_half {n : ℕ} (h53 : n < 2 ^ 53) :
    percentileRank (50 / 100) n = max 1 (n / 2) := by
  have hhalf : (50 / 100 * n : ℚ) = n * 2 ^ (-1 : ℤ) := by
    norm_num
    ring
  have hself : toDouble (n * 2 ^ (-1 : ℤ)) = n * 2 ^ (-1 : ℤ) :=
    Rounding.roundTo_eq_self h53 (by decide)
  have hdiv : (n * 2 ^ (-1 : ℤ) : ℚ) = (n : ℚ) / ((2 : ℕ) : ℚ) := by
    rw [zpow_neg_one]
    rfl
  rw [percentileRank, toDouble_natCast h53, hhalf, hself, hdiv, Nat.floor_div_eq_div]

theorem toDouble_half : toDouble (50 / 100) = 50 / 100 := by decide +kernel

/-- The largest percentile of a snapshot has a sample, however many there are. -/
theorem percentileRank_99_le {n : ℕ} (hn : 0 < n) :
    percentileRank (toDouble (99 / 100)) n ≤ n := by
  have hn' : (1 : ℚ) ≤ n := Nat.one_le_cast.mpr hn
  have h99 : toDouble (99 / 100) ≤ 992 / 1000 := by decide +kernel
  have hcast : toDouble n ≤ n * (1 + 1 / 2 ^ 53) := toDouble_le_mul (by linarith)
  have hprod : toDouble (99 / 100) * toDouble n ≤ 995 / 1000 * n := by
    have hmul := mul_le_mul h99 hcast (toDouble_nonneg (Nat.cast_nonneg n)) (by norm_num)
    refine hmul.trans ?_
    norm_num
    linarith
  have hround : toDouble (toDouble (99 / 100) * toDouble n) ≤ n := by
    have hnonneg : 0 ≤ toDouble (99 / 100) * toDouble n :=
      mul_nonneg (toDouble_nonneg (by norm_num)) (toDouble_nonneg (Nat.cast_nonneg n))
    calc toDouble (toDouble (99 / 100) * toDouble n) ≤ toDouble (995 / 1000 * n) :=
          toDouble_mono hnonneg hprod
      _ ≤ 995 / 1000 * n * (1 + 1 / 2 ^ 53) := toDouble_le_mul (by linarith)
      _ ≤ n := by
          norm_num
          linarith
  exact max_le hn (Nat.floor_le_of_le hround)

/-! ## The scan -/

theorem countP_lt_add_count (buckets : List ℕ) (i : ℕ) :
    buckets.countP (· < i) + buckets.count i = buckets.countP (· ≤ i) := by
  induction buckets with
  | nil => rfl
  | cons b buckets ih =>
    rw [List.countP_cons, List.count_cons, List.countP_cons]
    by_cases hlt : b < i
    · simp [hlt, hlt.le, hlt.ne]
      omega
    · by_cases heq : b = i
      · subst heq
        simp
        omega
      · have hle : ¬ b ≤ i := by omega
        simp [hlt, heq, hle]
        omega

/-- The cumulative count reaches the rank at the bucket of that rank, and not before it. -/
theorem percentileFrom_eq {t : Totals} {buckets : List ℕ} {target b : ℕ}
    (hhist : ∀ i, t.latencyHistogram i = buckets.count i) (hb : IsKth buckets target b) :
    ∀ fuel i, i ≤ b → b < i + fuel →
      percentileFrom t target fuel i (buckets.countP (· < i)) = bucketToLatencyUpperNs b := by
  intro fuel
  induction fuel with
  | zero =>
    intro i hle hlt
    omega
  | succ fuel ih =>
    intro i hle hlt
    rw [percentileFrom, hhist, countP_lt_add_count]
    by_cases hreached : buckets.countP (· ≤ i) ≥ target
    · rw [if_pos hreached, le_antisymm hle ((le_countP_le_iff hb).mp hreached)]
    · rw [if_neg hreached]
      have hne : i ≠ b := fun heq => hreached ((le_countP_le_iff hb).mpr heq.ge)
      have hnext : buckets.countP (· ≤ i) = buckets.countP (· < i + 1) := by
        simp only [Nat.lt_succ_iff]
      rw [hnext]
      exact ih (i + 1) (by omega) (by omega)

/-- A rank above the number of samples ends the scan at the last bucket. -/
theorem percentileFrom_none {t : Totals} {buckets : List ℕ} {target : ℕ}
    (hhist : ∀ i, t.latencyHistogram i = buckets.count i) (htarget : buckets.length < target) :
    ∀ fuel i, percentileFrom t target fuel i (buckets.countP (· < i)) = lastEdgeNs := by
  intro fuel
  induction fuel with
  | zero =>
    intro i
    rfl
  | succ fuel ih =>
    intro i
    have hle : buckets.countP (· ≤ i) ≤ buckets.length := List.countP_le_length
    have hnext : buckets.countP (· ≤ i) = buckets.countP (· < i + 1) := by
      simp only [Nat.lt_succ_iff]
    rw [percentileFrom, hhist, countP_lt_add_count, if_neg (by omega), hnext]
    exact ih (i + 1)

/-! ## The samples of a run -/

namespace Totals

variable {t : Totals} {samples : List RequestSample} {pct : ℚ} {x : ℕ}

/-- The latencies of the samples, with repetitions. -/
def latencyList (samples : List RequestSample) : List ℕ := samples.map (·.latencyNs)

theorem exists_percentile (h : percentileRank pct samples.length ≤ samples.length) :
    ∃ x, kthSmallest (latencyList samples) (percentileRank pct samples.length) = some x ∧
      IsKth (latencyList samples) (percentileRank pct samples.length) x := by
  apply exists_isKth (percentileRank_pos _ _)
  rwa [latencyList, List.length_map]

theorem Sums.getPercentileNs_scan (h : t.Sums samples) (hne : samples ≠ []) :
    getPercentileNs t pct t.totalRequests
      = percentileFrom t (percentileRank pct samples.length) latencyBucketCount 0
        ((samples.map (latencyToBucket ·.latencyNs)).countP (· < 0)) := by
  have hlen : samples.length ≠ 0 := fun hzero => hne (List.length_eq_zero_iff.mp hzero)
  have htarget : (if ⌊toDouble (pct * toDouble samples.length)⌋₊ = 0 then 1
      else ⌊toDouble (pct * toDouble samples.length)⌋₊) = percentileRank pct samples.length := by
    unfold percentileRank
    split_ifs <;> omega
  have hzero : (samples.map (latencyToBucket ·.latencyNs)).countP (· < 0) = 0 := by simp
  rw [getPercentileNs, h.counts.total, if_neg hlen, hzero]
  dsimp only
  rw [htarget]

theorem Sums.getPercentileNs_eq (h : t.Sums samples)
    (hx : IsKth (latencyList samples) (percentileRank pct samples.length) x) :
    getPercentileNs t pct t.totalRequests = bucketToLatencyUpperNs (latencyToBucket x) := by
  have hbucket := hx.map latencyToBucket_mono
  have hmap : (latencyList samples).map latencyToBucket
      = samples.map (latencyToBucket ·.latencyNs) := List.map_map
  rw [hmap] at hbucket
  rw [h.getPercentileNs_scan (fun hnil => by simpa [latencyList, hnil] using hx.mem)]
  refine percentileFrom_eq h.histogram hbucket latencyBucketCount 0 (Nat.zero_le _) ?_
  rw [Nat.zero_add]
  exact latencyToBucket_lt x

theorem Sums.getPercentileNs_last (h : t.Sums samples) (hne : samples ≠ [])
    (hnone : kthSmallest (latencyList samples) (percentileRank pct samples.length) = none) :
    getPercentileNs t pct t.totalRequests = lastEdgeNs := by
  have hrank : samples.length < percentileRank pct samples.length := by
    by_contra hle
    obtain ⟨x, hx, -⟩ := exists_percentile (not_lt.mp hle)
    rw [hnone] at hx
    cases hx
  rw [h.getPercentileNs_scan hne]
  exact percentileFrom_none h.histogram (by rwa [List.length_map]) _ _

/-- A larger percentile is not smaller. -/
theorem Sums.getPercentileNs_mono (h : t.Sums samples) {p q : ℚ} (hp : 0 ≤ p) (hpq : p ≤ q)
    (hq : percentileRank q samples.length ≤ samples.length) :
    getPercentileNs t p t.totalRequests ≤ getPercentileNs t q t.totalRequests := by
  have hranks := percentileRank_mono hp hpq samples.length
  obtain ⟨x, -, hx⟩ := exists_percentile (hranks.trans hq)
  obtain ⟨y, -, hy⟩ := exists_percentile hq
  rw [h.getPercentileNs_eq hx, h.getPercentileNs_eq hy]
  exact bucketToLatencyUpperNs_mono (latencyToBucket_mono (hx.mono hy hranks))

theorem Sums.getPercentileNs_le_max (h : t.Sums samples)
    (hrank : percentileRank pct samples.length ≤ samples.length) :
    getPercentileNs t pct t.totalRequests ≤ t.maxLatencyNs := by
  obtain ⟨x, -, hx⟩ := exists_percentile hrank
  obtain ⟨s, hs, rfl⟩ := List.mem_map.mp hx.mem
  rw [h.getPercentileNs_eq hx]
  exact (edge_le _).trans ((h.max_le _).mp le_rfl s hs)

/-- What lies up to the edge below `x` is what lies up to some edge up to `x`. -/
theorem le_edge_iff {m : ℕ} : m ≤ bucketToLatencyUpperNs (latencyToBucket x) ↔
    ∃ e, m ≤ e ∧ e ≤ x ∧ e ≤ lastEdgeNs ∧ bucketWidthNs e ∣ e := by
  constructor
  · intro hm
    refine ⟨_, hm, edge_le x, edge_le_last x, (edge_eq_iff (edge_le_last x)).mp ?_⟩
    apply le_antisymm (edge_le _)
    exact bucketToLatencyUpperNs_mono
      ((le_latencyToBucket_iff (latencyToBucket_lt x)).mpr le_rfl)
  · rintro ⟨e, hm, hex, hlast, hdvd⟩
    have hedge := (edge_eq_iff hlast).mpr hdvd
    have hle := bucketToLatencyUpperNs_mono (latencyToBucket_mono hex)
    omega

/-- The value returned for a percentile, as far as the samples determine it. -/
structure PercentileOf (samples : List RequestSample) (pct : ℚ) (value : ℕ) : Prop where
  /-- It is the edge of the bucket of the sample of its rank, not above that sample and less than
  a bucket width below it. -/
  edge : ∀ x, kthSmallest (latencyList samples) (percentileRank pct samples.length) = some x →
    value = bucketToLatencyUpperNs (latencyToBucket x) ∧ value ≤ x ∧
      (x ≤ lastEdgeNs → x < value + bucketWidthNs x)
  /-- Without such a sample it is the last edge. -/
  last : kthSmallest (latencyList samples) (percentileRank pct samples.length) = none →
    value = lastEdgeNs
  /-- There is one for fewer than `2 ^ 53` samples, and its rank is the exact one or the next. -/
  rank : samples.length < 2 ^ 53 →
    (∃ x, kthSmallest (latencyList samples) (percentileRank pct samples.length) = some x) ∧
      exactRank pct samples.length ≤ percentileRank pct samples.length ∧
      percentileRank pct samples.length ≤ exactRank pct samples.length + 1

theorem Sums.percentileOf (h : t.Sums samples) (hne : samples ≠ []) (hpct : 0 ≤ pct)
    (hone : pct ≤ 1) : PercentileOf samples pct (getPercentileNs t pct t.totalRequests) := by
  constructor
  · intro x hx
    rw [h.getPercentileNs_eq ((kthSmallest_eq_some_iff (percentileRank_pos _ _)).mp hx)]
    exact ⟨rfl, edge_le x, lt_edge_add_width⟩
  · exact h.getPercentileNs_last hne
  · intro h53
    have hbounds := percentileRank_bounds hpct hone (List.length_pos_iff.mpr hne) h53
    obtain ⟨x, hx, -⟩ := exists_percentile (hbounds.2.trans (min_le_left _ _))
    exact ⟨⟨x, hx⟩, hbounds.1, hbounds.2.trans (min_le_right _ _)⟩

/-- The value counts its exact rank of samples exactly when an edge lies between the sample of
the exact rank and the one of the rank that is looked for. -/
theorem Sums.exactRank_le_count_iff (h : t.Sums samples)
    (hx : IsKth (latencyList samples) (exactRank pct samples.length) x) (hle : x ≤ lastEdgeNs) :
    exactRank pct samples.length
        ≤ (latencyList samples).countP (· ≤ getPercentileNs t pct t.totalRequests) ↔
      ∃ e, x ≤ e ∧ e ≤ lastEdgeNs ∧ bucketWidthNs e ∣ e ∧
        ∀ y, kthSmallest (latencyList samples) (percentileRank pct samples.length) = some y →
          e ≤ y := by
  have hne : samples ≠ [] := fun hnil => by simpa [latencyList, hnil] using hx.mem
  rw [le_countP_le_iff hx]
  cases hy : kthSmallest (latencyList samples) (percentileRank pct samples.length) with
  | none =>
    rw [h.getPercentileNs_last hne hy]
    exact iff_of_true hle ⟨lastEdgeNs, hle, le_rfl, by decide, fun y hy => by cases hy⟩
  | some y =>
    rw [h.getPercentileNs_eq ((kthSmallest_eq_some_iff (percentileRank_pos _ _)).mp hy),
      le_edge_iff]
    constructor
    · rintro ⟨e, hxe, hey, hlast, hdvd⟩
      exact ⟨e, hxe, hlast, hdvd, fun z hz => (Option.some.inj hz) ▸ hey⟩
    · rintro ⟨e, hxe, hlast, hdvd, hall⟩
      exact ⟨e, hxe, hall y rfl, hlast, hdvd⟩

end Totals

/-- The latencies of a snapshot are in order. -/
structure StatsSnapshot.LatencyOrdered (s : StatsSnapshot) : Prop where
  min_le : s.minLatencyNs ≤ s.p50LatencyNs
  p50_le : s.p50LatencyNs ≤ s.p95LatencyNs
  p95_le : s.p95LatencyNs ≤ s.p99LatencyNs
  p99_le : s.p99LatencyNs ≤ s.maxLatencyNs

namespace Totals

variable {t : Totals} {samples : List RequestSample} (qpsMask startNs nowNs laterNs : ℕ)

theorem snapshot_percentiles (hpos : t.totalRequests > 0) :
    (snapshot qpsMask startNs nowNs laterNs t).p50LatencyNs
        = getPercentileNs t (50 / 100) t.totalRequests ∧
      (snapshot qpsMask startNs nowNs laterNs t).p95LatencyNs
        = getPercentileNs t (toDouble (95 / 100)) t.totalRequests ∧
      (snapshot qpsMask startNs nowNs laterNs t).p99LatencyNs
        = getPercentileNs t (toDouble (99 / 100)) t.totalRequests := by
  simp only [snapshot, hpos, if_true, toDouble_half, and_self]

/-- The percentiles and the maximum are always in order; only the minimum may be out of place. -/
theorem Sums.latencyOrdered_iff (h : t.Sums samples) (hne : samples ≠ []) :
    (snapshot qpsMask startNs nowNs laterNs t).LatencyOrdered ↔
      (if t.minLatencyNs = 2 ^ 64 - 1 then 0 else t.minLatencyNs)
        ≤ getPercentileNs t (50 / 100) t.totalRequests := by
  have hpos : t.totalRequests > 0 := h.counts.total ▸ List.length_pos_iff.mpr hne
  obtain ⟨hp50, hp95, hp99⟩ := snapshot_percentiles qpsMask startNs nowNs laterNs hpos
  obtain ⟨-, hmin, hmax⟩ := h.snapshot_latencies qpsMask startNs nowNs laterNs hne
  have hmono : toDouble (95 / 100) ≤ toDouble (99 / 100) :=
    toDouble_mono (by norm_num) (by norm_num)
  have h99 := percentileRank_99_le (List.length_pos_iff.mpr hne)
  have h95 := percentileRank_mono (toDouble_nonneg (by norm_num)) hmono samples.length
  constructor
  · intro hord
    have hle := hord.min_le
    rwa [hmin, hp50] at hle
  · intro hle
    refine ⟨?_, ?_, ?_, ?_⟩
    · rwa [hmin, hp50]
    · rw [hp50, hp95]
      exact h.getPercentileNs_mono (by norm_num) (by decide +kernel) (h95.trans h99)
    · rw [hp95, hp99]
      exact h.getPercentileNs_mono (toDouble_nonneg (by norm_num)) hmono h99
    · rw [hp99, hmax]
      exact h.getPercentileNs_le_max h99

end Totals

/-! ## Main results -/

namespace Collector

variable {ι : Type*} [DecidableEq ι] {c : Collector ι}

/-- **A percentile is the edge of the bucket of the sample of its rank**, at any moment of every
run, and less than a bucket width below that sample. The rank is the integral part of the product
in `double`, which is at most one above the exact rank. -/
theorem percentile_bucket {cfg : StatsConfig} {startNs : ℕ} (hnew : new cfg startNs = some c)
    (actions : List (Action ι)) (hne : (c.run actions).drained ≠ []) {pct : ℚ} (hpct : 0 < pct)
    (hone : pct ≤ 1) :
    Totals.PercentileOf (c.run actions).drained pct
      (getPercentileNs (c.run actions).totals pct (c.run actions).totals.totalRequests) :=
  (sums_run hnew actions).percentileOf hne hpct.le hone

theorem percentile_bucket_two :
    ∃ c₀ : Collector Bool, new {} 0 = some c₀ ∧
      Totals.PercentileOf (c₀.run twoRecorded).drained (toDouble (95 / 100))
        (getPercentileNs (c₀.run twoRecorded).totals (toDouble (95 / 100))
          (c₀.run twoRecorded).totals.totalRequests) :=
  ⟨_, rfl, @percentile_bucket Bool _ _ {} 0 rfl twoRecorded (by decide) _ (by decide +kernel)
    (by decide +kernel)⟩

def latencySample (latencyNs : ℕ) : RequestSample := { latencyNs, success := true }

/-- A writer is created, records latencies of one, two and three microseconds and is drained. -/
def threeRecorded : List (Action Bool) :=
  .create true :: List.replicate 4 (.record true (latencySample 1000))
    ++ List.replicate 4 (.record true (latencySample 2000))
    ++ List.replicate 4 (.record true (latencySample 3000)) ++ List.replicate 7 (.drain 1)

/-- The `double` nearest to two thirds is below two thirds, but its product with `3` is rounded to
`2`: the edge of the second sample is returned, where the exact rank is `1`. -/
theorem percentile_above_exact_rank :
    ∃ c₀ : Collector Bool, new {} 0 = some c₀ ∧ ∃ (actions : List (Action Bool)) (pct : ℚ) (x : ℕ),
      0 < pct ∧ pct ≤ 1 ∧ toDouble pct = pct ∧
      kthSmallest (Totals.latencyList (c₀.run actions).drained)
        (max 1 ⌊pct * (c₀.run actions).drained.length⌋₊) = some x ∧
      getPercentileNs (c₀.run actions).totals pct (c₀.run actions).totals.totalRequests
        ≠ bucketToLatencyUpperNs (latencyToBucket x) := by
  have hrank : percentileRank (toDouble (2 / 3)) 3 = 2 := by decide +kernel
  have hexact : exactRank (toDouble (2 / 3)) 3 = 1 := by decide +kernel
  have hkth : kthSmallest [1000, 2000, 3000] (percentileRank (toDouble (2 / 3)) 3) = some 2000 := by
    rw [hrank]
    decide
  have hfirst : kthSmallest [1000, 2000, 3000] (exactRank (toDouble (2 / 3)) 3) = some 1000 := by
    rw [hexact]
    decide
  refine ⟨_, rfl, threeRecorded, toDouble (2 / 3), 1000, by decide +kernel, by decide +kernel,
    by decide +kernel, hfirst, ?_⟩
  have hsums := @sums_run Bool _ _ {} 0 rfl threeRecorded
  rw [hsums.getPercentileNs_eq ((kthSmallest_eq_some_iff (percentileRank_pos _ _)).mp hkth)]
  decide

/-- **A percentile is an upper bound for its exact rank exactly when a bucket edge lies between
the sample of that rank and the sample that is looked for**, the former being at most ten seconds.
If both are the same sample, it must be on an edge itself. -/
theorem percentile_upper_iff {cfg : StatsConfig} {startNs : ℕ} (hnew : new cfg startNs = some c)
    (actions : List (Action ι)) {pct : ℚ} {x : ℕ}
    (hx : kthSmallest (Totals.latencyList (c.run actions).drained)
      (exactRank pct (c.run actions).drained.length) = some x) (hle : x ≤ lastEdgeNs) :
    exactRank pct (c.run actions).drained.length
        ≤ (Totals.latencyList (c.run actions).drained).countP
          (· ≤ getPercentileNs (c.run actions).totals pct (c.run actions).totals.totalRequests) ↔
      ∃ e, x ≤ e ∧ e ≤ lastEdgeNs ∧ bucketWidthNs e ∣ e ∧
        ∀ y, kthSmallest (Totals.latencyList (c.run actions).drained)
          (percentileRank pct (c.run actions).drained.length) = some y → e ≤ y :=
  (sums_run hnew actions).exactRank_le_count_iff
    ((kthSmallest_eq_some_iff (exactRank_pos _ _)).mp hx) hle

theorem exactRank_one_two : exactRank 1 2 = 2 := by decide +kernel

theorem percentile_upper_iff_two :
    ∃ c₀ : Collector Bool, new {} 0 = some c₀ ∧
      (exactRank 1 (c₀.run twoRecorded).drained.length
        ≤ (Totals.latencyList (c₀.run twoRecorded).drained).countP
          (· ≤ getPercentileNs (c₀.run twoRecorded).totals 1
            (c₀.run twoRecorded).totals.totalRequests) ↔
        ∃ e, 1500 ≤ e ∧ e ≤ lastEdgeNs ∧ bucketWidthNs e ∣ e ∧
          ∀ y, kthSmallest (Totals.latencyList (c₀.run twoRecorded).drained)
            (percentileRank 1 (c₀.run twoRecorded).drained.length) = some y → e ≤ y) := by
  refine ⟨_, rfl, @percentile_upper_iff Bool _ _ {} 0 rfl twoRecorded 1 1500 ?_ (by decide)⟩
  show kthSmallest [1500, 900] (exactRank 1 2) = some 1500
  rw [exactRank_one_two]
  decide

/-- Both samples have rank `2`, and only one of them is up to the value returned. -/
theorem percentile_below_its_rank :
    ∃ c₀ : Collector Bool, new {} 0 = some c₀ ∧ ∃ (actions : List (Action Bool)) (x : ℕ),
      kthSmallest (Totals.latencyList (c₀.run actions).drained)
        (exactRank 1 (c₀.run actions).drained.length) = some x ∧ x ≤ 10000000000 ∧
      ¬ exactRank 1 (c₀.run actions).drained.length
        ≤ (Totals.latencyList (c₀.run actions).drained).countP
          (· ≤ getPercentileNs (c₀.run actions).totals 1
            (c₀.run actions).totals.totalRequests) := by
  have hkth : kthSmallest [1500, 900] (exactRank 1 2) = some 1500 := by
    rw [exactRank_one_two]
    decide
  have hlooked : kthSmallest [1500, 900] (percentileRank 1 2) = some 1500 := by
    have hrank : percentileRank 1 2 = 2 := by decide +kernel
    rw [hrank]
    decide
  refine ⟨_, rfl, twoRecorded, 1500, hkth, by decide, ?_⟩
  have hsums := @sums_run Bool _ _ {} 0 rfl twoRecorded
  intro hup
  have hle := (le_countP_le_iff ((kthSmallest_eq_some_iff (exactRank_pos 1 2)).mp hkth)).mp hup
  rw [hsums.getPercentileNs_eq
    ((kthSmallest_eq_some_iff (percentileRank_pos 1 2)).mp hlooked)] at hle
  exact absurd hle (by decide)

/-- **The latency summary is in order exactly when an edge lies between the minimum and the
median sample**, or the minimum is the largest 64-bit number, which is reported as `0`. -/
theorem latency_ordered_iff {cfg : StatsConfig} {startNs : ℕ} (hnew : new cfg startNs = some c)
    (actions : List (Action ι)) (nowNs laterNs : ℕ) {m x : ℕ}
    (hfits : ∀ s ∈ (c.run actions).drained, s.latencyNs < 2 ^ 64)
    (hm : IsLeast (Totals.latencies (c.run actions).drained) m)
    (hx : kthSmallest (Totals.latencyList (c.run actions).drained)
      (percentileRank (50 / 100) (c.run actions).drained.length) = some x) :
    (snapshot (c.run actions).qpsMask (c.run actions).startNs nowNs laterNs
      (c.run actions).totals).LatencyOrdered ↔
      m = 2 ^ 64 - 1 ∨ ∃ e, m ≤ e ∧ e ≤ x ∧ e ≤ lastEdgeNs ∧ bucketWidthNs e ∣ e := by
  have hsums := sums_run hnew actions
  have hne : (c.run actions).drained ≠ [] := by
    obtain ⟨s, hs, -⟩ := hm.1
    exact List.ne_nil_of_mem hs
  have hkth := (kthSmallest_eq_some_iff (percentileRank_pos _ _)).mp hx
  rw [hsums.latencyOrdered_iff _ _ _ _ hne, (hsums.isLeast_min hne hfits).unique hm,
    hsums.getPercentileNs_eq hkth, ← Totals.le_edge_iff]
  split_ifs with hlast
  · exact iff_of_true (Nat.zero_le _) (Or.inl hlast)
  · exact (or_iff_right hlast).symm

theorem percentileRank_half_two : percentileRank (50 / 100) 2 = 1 := percentileRank_half (by decide)

theorem isLeast_two : IsLeast (Totals.latencies [okSample, missingSample]) 900 := by
  constructor
  · exact ⟨missingSample, by decide, rfl⟩
  · rintro x ⟨s, hs, rfl⟩
    revert s
    decide

theorem latency_ordered_iff_two :
    ∃ c₀ : Collector Bool, new {} 0 = some c₀ ∧
      ((snapshot (c₀.run twoRecorded).qpsMask (c₀.run twoRecorded).startNs 5 5
        (c₀.run twoRecorded).totals).LatencyOrdered ↔
        900 = 2 ^ 64 - 1 ∨ ∃ e, 900 ≤ e ∧ e ≤ 900 ∧ e ≤ lastEdgeNs ∧ bucketWidthNs e ∣ e) := by
  refine ⟨_, rfl, @latency_ordered_iff Bool _ _ {} 0 rfl twoRecorded 5 5 900 900 (by decide)
    isLeast_two ?_⟩
  show kthSmallest [1500, 900] (percentileRank (50 / 100) 2) = some 900
  rw [percentileRank_half_two]
  decide

/-- The median of `900` and `1500` nanoseconds is reported as `0`, below the minimum. -/
theorem median_below_minimum :
    ∃ c₀ : Collector Bool, new {} 0 = some c₀ ∧ ∃ actions : List (Action Bool),
      (c₀.run actions).drained ≠ [] ∧
      ¬ (snapshot (c₀.run actions).qpsMask (c₀.run actions).startNs 5 5
        (c₀.run actions).totals).LatencyOrdered := by
  have hkth : kthSmallest [1500, 900] (percentileRank (50 / 100) 2) = some 900 := by
    rw [percentileRank_half_two]
    decide
  refine ⟨_, rfl, twoRecorded, by decide, ?_⟩
  have hsums := @sums_run Bool _ _ {} 0 rfl twoRecorded
  rw [hsums.latencyOrdered_iff _ _ _ _ (by decide),
    hsums.getPercentileNs_eq ((kthSmallest_eq_some_iff (percentileRank_pos _ _)).mp hkth)]
  decide

end Collector

end TitanBench
