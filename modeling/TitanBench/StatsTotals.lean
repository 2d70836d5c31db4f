import Mathlib.Algebra.BigOperators.Group.Finset.Basic
import Mathlib.Algebra.Order.BigOperators.Group.List
import Mathlib.Order.Bounds.Basic
import TitanBench.StatsRing

/-!
# The totals of the drained samples

All counters of the collector describe one list of samples, those `Drain` has handed to
`RecordFastPath`.

* `Totals.Sums` — every counter as a function of the samples; `Sums.record` keeps it.
* `Collector.totals_run` — a fact about totals and samples that one sample keeps holds in every
  run.
* `StatsSnapshot.Tallies` — what a snapshot says about the samples; `Sums.tallies` reads it off.
* `Collector.snapshot_tallies` — it holds at any moment of every run.
-/

namespace TitanBench

/-! ## Counters of a list -/

theorem bump_count {α : Type*} {f : α → ℕ} {counts : ℕ → ℕ} {samples : List α}
    (h : ∀ i, counts i = (samples.map f).count i) (a : α) (i : ℕ) :
    bump counts (f a) i = ((samples ++ [a]).map f).count i := by
  rw [List.map_append, List.map_singleton, List.count_append, List.count_singleton, ← h i]
  by_cases hi : f a = i
  · subst hi
    rw [bump, Function.update_self, beq_self_eq_true, if_pos rfl]
  · rw [bump, Function.update_of_ne (Ne.symm hi), beq_eq_false_iff_ne.mpr hi]
    rfl

/-- Counters over a range that holds every value count the whole list. -/
theorem sum_range_count {n : ℕ} {l : List ℕ} (h : ∀ a ∈ l, a < n) :
    ∑ i ∈ Finset.range n, l.count i = l.length := by
  have hsum := Multiset.sum_count_eq_card (s := Finset.range n) (m := (l : Multiset ℕ))
    fun a ha => Finset.mem_range.mpr (h a ha)
  simpa only [Multiset.coe_count, Multiset.coe_card] using hsum

/-! ## One sample -/

/-- The class under which `RecordFastPath` counts a sample. -/
def countedUnder (sample : RequestSample) : ℕ :=
  if sample.success then ErrorClass.none.index else errorIndexFromSample sample

/-- The length of `error_counts`. -/
def errorClassCount : ℕ := 9

theorem ErrorClass.index_lt (e : ErrorClass) : e.index < errorClassCount := by
  cases e <;> decide

theorem ErrorClass.index_ne_none {e : ErrorClass} (h : e ≠ .none) : e.index ≠ none.index := by
  cases e
  case none => exact absurd rfl h
  all_goals decide

/-- A failed sample is counted under a class of its own: its status decides before its error. -/
theorem errorIndexFromSample_eq (sample : RequestSample) : ∃ e : ErrorClass,
    errorIndexFromSample sample = e.index ∧
    (400 ≤ sample.httpStatus ∧ sample.httpStatus ≤ 499 → e = .http4xx) ∧
    (500 ≤ sample.httpStatus ∧ sample.httpStatus ≤ 599 → e = .http5xx) ∧
    (sample.error ≠ .none → e ≠ .none) := by
  unfold errorIndexFromSample
  by_cases h5 : 500 ≤ sample.httpStatus ∧ sample.httpStatus ≤ 599
  · rw [if_pos h5]
    exact ⟨.http5xx, rfl, fun h4 => by omega, fun _ => rfl, fun _ => by decide⟩
  · rw [if_neg h5]
    by_cases h4 : 400 ≤ sample.httpStatus ∧ sample.httpStatus ≤ 499
    · rw [if_pos h4]
      exact ⟨.http4xx, rfl, fun _ => rfl, fun h => absurd h h5, fun _ => by decide⟩
    · rw [if_neg h4]
      exact ⟨sample.error, rfl, fun h => absurd h h4, fun h => absurd h h5, id⟩

theorem countedUnder_lt (sample : RequestSample) : countedUnder sample < errorClassCount := by
  obtain ⟨e, he, -⟩ := errorIndexFromSample_eq sample
  unfold countedUnder
  split
  · exact ErrorClass.index_lt _
  · exact he ▸ e.index_lt

/-! ## The totals of a list of samples -/

/-- Every counter of `t` but the byte and second counters describes the same samples. -/
structure Totals.Sums (t : Totals) (samples : List RequestSample) : Prop where
  counts : t.Counts samples
  errors : ∀ i, t.errorCounts i = (samples.map countedUnder).count i
  histogram : ∀ b, t.latencyHistogram b = (samples.map (latencyToBucket ·.latencyNs)).count b
  latencySum : t.latencySumNs = (samples.map (·.latencyNs)).sum
  le_min : ∀ a, a ≤ t.minLatencyNs ↔ a ≤ 2 ^ 64 - 1 ∧ ∀ s ∈ samples, a ≤ s.latencyNs
  max_le : ∀ a, t.maxLatencyNs ≤ a ↔ ∀ s ∈ samples, s.latencyNs ≤ a

namespace Totals

variable {t : Totals} {samples : List RequestSample}

theorem sums_nil : Sums {} [] := by
  refine ⟨counts_nil, fun _ => rfl, fun _ => rfl, rfl, fun a => ?_, fun a => ?_⟩
  · simp
  · simp

theorem Sums.record (h : t.Sums samples) (qpsMask nowNs : ℕ) (sample : RequestSample) :
    (recordFastPath qpsMask nowNs sample t).Sums (samples ++ [sample]) := by
  refine ⟨h.counts.record qpsMask nowNs sample, ?_, ?_, ?_, ?_, ?_⟩
  · exact bump_count h.errors sample
  · exact bump_count h.histogram sample
  · rw [List.map_append, List.sum_append, List.map_singleton, List.sum_singleton, ← h.latencySum]
    rfl
  · intro a
    -- `UpdateMin` keeps the smaller of the two.
    have hmin : (recordFastPath qpsMask nowNs sample t).minLatencyNs
        = min sample.latencyNs t.minLatencyNs := by
      simp only [recordFastPath, min_def]
      split_ifs <;> omega
    rw [hmin, le_min_iff, h.le_min a, List.forall_mem_append, List.forall_mem_singleton]
    tauto
  · intro a
    have hmax : (recordFastPath qpsMask nowNs sample t).maxLatencyNs
        = max sample.latencyNs t.maxLatencyNs := by
      simp only [recordFastPath, max_def]
      split_ifs <;> omega
    rw [hmax, max_le_iff, h.max_le a, List.forall_mem_append, List.forall_mem_singleton]
    tauto

theorem Sums.of_dropped (h : t.Sums samples) (n : ℕ) :
    Sums { t with droppedSamples := n } samples :=
  ⟨h.counts.of_dropped n, h.errors, h.histogram, h.latencySum, h.le_min, h.max_le⟩

/-! ### Minimum and maximum -/

/-- The latencies of the samples. -/
def latencies (samples : List RequestSample) : Set ℕ := {x | ∃ s ∈ samples, s.latencyNs = x}

/-- The lower bounds of 64-bit latencies are those of the minimum, so it is one of them. -/
theorem Sums.isLeast_min (h : t.Sums samples) (hne : samples ≠ [])
    (hfits : ∀ s ∈ samples, s.latencyNs < 2 ^ 64) : IsLeast (latencies samples) t.minLatencyNs := by
  have hbound : ∀ a, a ≤ t.minLatencyNs ↔ ∀ s ∈ samples, a ≤ s.latencyNs := by
    intro a
    rw [h.le_min a]
    constructor
    · exact And.right
    · intro hle
      obtain ⟨s, hs⟩ := List.exists_mem_of_ne_nil samples hne
      have := hle s hs
      have := hfits s hs
      exact ⟨by omega, hle⟩
  constructor
  · by_contra hmiss
    -- Every sample would be above the minimum, and so would be the minimum.
    have habove : ∀ s ∈ samples, t.minLatencyNs + 1 ≤ s.latencyNs := by
      intro s hs
      have hle := (hbound _).mp le_rfl s hs
      exact lt_of_le_of_ne hle fun heq => hmiss ⟨s, hs, heq.symm⟩
    exact absurd ((hbound _).mpr habove) (Nat.not_succ_le_self _)
  · rintro x ⟨s, hs, rfl⟩
    exact (hbound _).mp le_rfl s hs

theorem Sums.isGreatest_max (h : t.Sums samples) (hne : samples ≠ []) :
    IsGreatest (latencies samples) t.maxLatencyNs := by
  constructor
  · by_contra hmiss
    have hbelow : ∀ s ∈ samples, s.latencyNs < t.maxLatencyNs := by
      intro s hs
      have hle := (h.max_le _).mp le_rfl s hs
      exact lt_of_le_of_ne hle fun heq => hmiss ⟨s, hs, heq⟩
    obtain ⟨s, hs⟩ := List.exists_mem_of_ne_nil samples hne
    have hpos := Nat.zero_lt_of_lt (hbelow s hs)
    have hle := (h.max_le (t.maxLatencyNs - 1)).mpr fun s hs => Nat.le_pred_of_lt (hbelow s hs)
    omega
  · rintro x ⟨s, hs, rfl⟩
    exact (h.max_le _).mp le_rfl s hs

/-- A mean lies between the extremes. -/
theorem min_le_mean {m : ℕ} (hne : samples ≠ []) (h : m ∈ lowerBounds (latencies samples)) :
    m ≤ (samples.map (·.latencyNs)).sum / samples.length := by
  rw [Nat.le_div_iff_mul_le (List.length_pos_iff.mpr hne), mul_comm]
  have hsum := List.card_nsmul_le_sum (samples.map (·.latencyNs)) m
    (List.forall_mem_map.mpr fun s hs => h ⟨s, hs, rfl⟩)
  simpa using hsum

theorem mean_le_max {m : ℕ} (h : m ∈ upperBounds (latencies samples)) :
    (samples.map (·.latencyNs)).sum / samples.length ≤ m := by
  apply Nat.div_le_of_le_mul
  have hsum := List.sum_le_card_nsmul (samples.map (·.latencyNs)) m
    (List.forall_mem_map.mpr fun s hs => h ⟨s, hs, rfl⟩)
  simpa using hsum

end Totals

/-! ## Every run -/

namespace Collector

variable {ι : Type*} [DecidableEq ι] {c : Collector ι}

/-- Only a drain touches the totals, and it records what it hands over. -/
theorem totals_act {P : Totals → List RequestSample → Prop}
    (hrecord : ∀ t samples, P t samples → ∀ qpsMask nowNs sample,
      P (recordFastPath qpsMask nowNs sample t) (samples ++ [sample]))
    (hdropped : ∀ t samples, P t samples → ∀ n, P { t with droppedSamples := n } samples)
    (h : P c.totals (c.handed.map (·.2))) (a : Action ι) :
    P (c.act a).totals ((c.act a).handed.map (·.2)) := by
  cases a with
  | create i =>
    simp only [act, createWriter]
    split_ifs <;> exact h
  | record i sample =>
    simp only [act, recordStep]
    split_ifs <;> exact h
  | drain nowNs =>
    simp only [act, drainStep]
    cases c.drain with
    | nextWriter todo => cases todo <;> exact h
    | consume i r write todo =>
      dsimp only
      split_ifs
      · rw [List.map_append]
        exact hrecord _ _ h _ _ _
      · exact h
    | addDropped n todo => exact hdropped _ _ h _
    | _ => exact h

theorem totals_run {P : Totals → List RequestSample → Prop}
    (hrecord : ∀ t samples, P t samples → ∀ qpsMask nowNs sample,
      P (recordFastPath qpsMask nowNs sample t) (samples ++ [sample]))
    (hdropped : ∀ t samples, P t samples → ∀ n, P { t with droppedSamples := n } samples)
    (h : P c.totals (c.handed.map (·.2))) (actions : List (Action ι)) :
    P (c.run actions).totals ((c.run actions).handed.map (·.2)) := by
  induction actions generalizing c with
  | nil => exact h
  | cons a actions ih => exact ih (totals_act hrecord hdropped h a)

omit [DecidableEq ι] in
theorem new_totals {cfg : StatsConfig} {startNs : ℕ} (h : new cfg startNs = some c) :
    c.totals = {} ∧ c.handed = [] := by
  unfold new at h
  split at h
  · cases h
    exact ⟨rfl, rfl⟩
  · cases h

/-- The samples drained so far. -/
def drained (c : Collector ι) : List RequestSample := c.handed.map (·.2)

theorem sums_run {cfg : StatsConfig} {startNs : ℕ} (h : new cfg startNs = some c)
    (actions : List (Action ι)) : (c.run actions).totals.Sums (c.run actions).drained := by
  obtain ⟨htotals, hhanded⟩ := new_totals h
  refine totals_run (P := Totals.Sums) (fun t samples hs => hs.record)
    (fun t samples hs => hs.of_dropped) ?_ actions
  rw [htotals, hhanded]
  exact Totals.sums_nil

end Collector

/-! ## The snapshot -/

/-- What a snapshot says about the samples it is taken of. -/
structure StatsSnapshot.Tallies (s : StatsSnapshot) (histogram : ℕ → ℕ)
    (samples : List RequestSample) : Prop where
  total : s.totalRequests = samples.length
  split : s.successRequests + s.failedRequests = s.totalRequests
  histogram : ∑ b ∈ Finset.range latencyBucketCount, histogram b = s.totalRequests
  errors : ∑ i ∈ Finset.range errorClassCount, s.errorCounts i = s.totalRequests
  success : s.errorCounts ErrorClass.none.index = s.successRequests
  /-- The count of a class is the number of samples counted under it. -/
  classes : ∀ i, s.errorCounts i = (samples.map countedUnder).count i
  /-- A failed sample is counted under a class other than `none`, by its status if that is an
  error status. -/
  failed : ∀ r ∈ samples, r.success = false → ∃ e : ErrorClass, countedUnder r = e.index ∧
    e ≠ .none ∧ (400 ≤ r.httpStatus ∧ r.httpStatus ≤ 499 → e = .http4xx) ∧
    (500 ≤ r.httpStatus ∧ r.httpStatus ≤ 599 → e = .http5xx)
  /-- The largest 64-bit number stands for "no minimum yet" and is reported as `0`. -/
  min : samples ≠ [] → ∃ m, IsLeast (Totals.latencies samples) m ∧
    s.minLatencyNs = if m = 2 ^ 64 - 1 then 0 else m
  max : samples ≠ [] → IsGreatest (Totals.latencies samples) s.maxLatencyNs
  avg : samples ≠ [] →
    s.avgLatencyNs = (samples.map (·.latencyNs)).sum / samples.length
  ordered : samples ≠ [] → s.minLatencyNs ≤ s.avgLatencyNs ∧ s.avgLatencyNs ≤ s.maxLatencyNs

namespace Totals

variable {t : Totals} {samples : List RequestSample}

theorem Sums.success_eq (h : t.Sums samples)
    (hfailed : ∀ s ∈ samples, s.success = false → s.error ≠ .none) :
    t.errorCounts ErrorClass.none.index = t.successRequests := by
  rw [h.errors, h.counts.success, List.count_eq_countP, List.countP_map]
  apply List.countP_congr
  intro s hs
  simp only [Function.comp_apply, beq_iff_eq, countedUnder]
  cases hb : s.success with
  | true => simp
  | false =>
    obtain ⟨e, he, -, -, hne⟩ := errorIndexFromSample_eq s
    simp [he, ErrorClass.index_ne_none (hne (hfailed s hs hb))]

theorem Sums.sum_histogram (h : t.Sums samples) :
    ∑ b ∈ Finset.range latencyBucketCount, t.latencyHistogram b = t.totalRequests := by
  rw [Finset.sum_congr rfl fun b _ => h.histogram b, sum_range_count, List.length_map,
    h.counts.total]
  exact List.forall_mem_map.mpr fun s _ => latencyToBucket_lt s.latencyNs

theorem Sums.sum_errors (h : t.Sums samples) :
    ∑ i ∈ Finset.range errorClassCount, t.errorCounts i = t.totalRequests := by
  rw [Finset.sum_congr rfl fun i _ => h.errors i, sum_range_count, List.length_map,
    h.counts.total]
  exact List.forall_mem_map.mpr fun s _ => countedUnder_lt s

theorem Sums.split (h : t.Sums samples) :
    t.successRequests + t.failedRequests = t.totalRequests := by
  rw [h.counts.success, h.counts.failed, h.counts.total,
    List.length_eq_countP_add_countP (fun s : RequestSample => s.success)]
  simp

variable (qpsMask startNs nowNs laterNs : ℕ)

theorem Sums.snapshot_latencies (h : t.Sums samples) (hne : samples ≠ []) :
    (snapshot qpsMask startNs nowNs laterNs t).avgLatencyNs
        = (samples.map (·.latencyNs)).sum / samples.length ∧
      (snapshot qpsMask startNs nowNs laterNs t).minLatencyNs
        = (if t.minLatencyNs = 2 ^ 64 - 1 then 0 else t.minLatencyNs) ∧
      (snapshot qpsMask startNs nowNs laterNs t).maxLatencyNs = t.maxLatencyNs := by
  have hpos : t.totalRequests > 0 := h.counts.total ▸ List.length_pos_iff.mpr hne
  rw [← h.latencySum, ← h.counts.total]
  simp only [snapshot, hpos, if_true, and_self]

theorem Sums.tallies (h : t.Sums samples)
    (hfailed : ∀ s ∈ samples, s.success = false → s.error ≠ .none)
    (hfits : ∀ s ∈ samples, s.latencyNs < 2 ^ 64) :
    (snapshot qpsMask startNs nowNs laterNs t).Tallies t.latencyHistogram samples := by
  have hlat := fun hne => h.snapshot_latencies qpsMask startNs nowNs laterNs hne
  refine ⟨h.counts.total, h.split, h.sum_histogram, h.sum_errors, h.success_eq hfailed, h.errors,
    ?_, ?_, ?_, ?_, ?_⟩
  · intro r hr hb
    obtain ⟨e, he, h4, h5, hne⟩ := errorIndexFromSample_eq r
    exact ⟨e, by simp [countedUnder, hb, he], hne (hfailed r hr hb), h4, h5⟩
  · intro hne
    exact ⟨t.minLatencyNs, h.isLeast_min hne hfits, (hlat hne).2.1⟩
  · intro hne
    rw [(hlat hne).2.2]
    exact h.isGreatest_max hne
  · intro hne
    exact (hlat hne).1
  · intro hne
    obtain ⟨havg, hmin, hmax⟩ := hlat hne
    rw [havg, hmin, hmax]
    constructor
    · refine le_trans ?_ (min_le_mean hne (h.isLeast_min hne hfits).2)
      split_ifs
      · exact Nat.zero_le _
      · exact le_rfl
    · exact mean_le_max (h.isGreatest_max hne).2

end Totals

namespace Collector

variable {ι : Type*} [DecidableEq ι] {c : Collector ι}

/-- **All counters describe the samples drained so far**, at any moment of any interleaving of the
writers with the drain, while the sum of the latencies fits its counter and every failed sample
names an error. -/
theorem snapshot_tallies {cfg : StatsConfig} {startNs : ℕ} (hnew : new cfg startNs = some c)
    (actions : List (Action ι)) (nowNs laterNs : ℕ)
    (hfailed : ∀ s ∈ (c.run actions).drained, s.success = false → s.error ≠ .none)
    (hsum : ((c.run actions).drained.map (·.latencyNs)).sum < 2 ^ 64) :
    (snapshot (c.run actions).qpsMask (c.run actions).startNs nowNs laterNs
      (c.run actions).totals).Tallies (c.run actions).totals.latencyHistogram
        (c.run actions).drained := by
  refine (sums_run hnew actions).tallies _ _ _ _ hfailed fun s hs => ?_
  exact lt_of_le_of_lt (List.le_sum_of_mem (List.mem_map_of_mem hs)) hsum

def okSample : RequestSample := { latencyNs := 1500, success := true }
def missingSample : RequestSample := { latencyNs := 900, httpStatus := 404, error := .other }

/-- A writer is created, records two samples and is drained. -/
def twoRecorded : List (Action Bool) :=
  .create true :: List.replicate 4 (.record true okSample)
    ++ List.replicate 4 (.record true missingSample) ++ List.replicate 5 (.drain 1)

theorem snapshot_tallies_two :
    ∃ c₀ : Collector Bool, new {} 0 = some c₀ ∧
      (snapshot (c₀.run twoRecorded).qpsMask (c₀.run twoRecorded).startNs 5 5
        (c₀.run twoRecorded).totals).Tallies (c₀.run twoRecorded).totals.latencyHistogram
          [okSample, missingSample] :=
  ⟨_, rfl, @snapshot_tallies Bool _ _ {} 0 rfl twoRecorded 5 5 (by decide) (by decide)⟩

/-- A minimum of `2 ^ 64 - 1` is reported as `0`. -/
theorem snapshot_min_slowest :
    ∃ c₀ : Collector Bool, new {} 0 = some c₀ ∧ ∃ actions : List (Action Bool),
      (∀ s ∈ (c₀.run actions).drained, s.success = false → s.error ≠ .none) ∧
      ((c₀.run actions).drained.map (·.latencyNs)).sum < 2 ^ 64 ∧
      (c₀.run actions).drained ≠ [] ∧
      ¬ IsLeast (Totals.latencies (c₀.run actions).drained)
        (snapshot (c₀.run actions).qpsMask (c₀.run actions).startNs 5 5
          (c₀.run actions).totals).minLatencyNs := by
  refine ⟨_, rfl, .create true :: List.replicate 4 (.record true
    { latencyNs := 2 ^ 64 - 1, success := true }) ++ List.replicate 4 (.drain 1), ?_⟩
  refine ⟨by decide, by decide, by decide, ?_⟩
  rintro ⟨⟨s, hs, hlat⟩, -⟩
  revert s
  decide

end Collector

end TitanBench
