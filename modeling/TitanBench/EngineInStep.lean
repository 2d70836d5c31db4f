import TitanBench.EngineStats
import TitanBench.StatsCatchUp

/-!
# How far the counters and the statistics are apart

While the workers go on, a request is counted in several steps: its outcome, its completion and its
sample. Each worker is in the middle of one request at most.

* `Orderly` — a worker has one request to record at a time, and counts it before it records it.
* `StatsSnapshot.Le` — a later snapshot shows no less.
* `InStep`, `Runs.inStep` — the counters and the statistics are in step but for one request of each
  worker.
-/

namespace TitanBench

open Threads

variable {n : ℕ}

/-! ## One request at a time -/

/-- A sample that is to be recorded, or is being recorded. -/
def Op.underWay : Op → ℕ
  | .record _ | .recording => 1
  | _ => 0

@[simp] theorem Op.underWay_add (c : Counter) (m : ℕ) : Op.underWay (.add c m) = 0 := rfl

@[simp] theorem Op.underWay_storeStop : Op.underWay .storeStop = 0 := rfl

@[simp] theorem Op.underWay_record (s : RequestSample) : Op.underWay (.record s) = 1 := rfl

@[simp] theorem Op.underWay_recording : Op.underWay .recording = 1 := rfl

/-- One sample is under way at most, and what is still to be counted is still to be recorded. -/
@[mk_iff]
structure InOrder (ops : List Op) : Prop where
  one : weigh Op.underWay ops ≤ 1
  first : ∀ k : Tally, owed k.counter ops ≤ toRecord k ops

/-- It stays so while the operations are executed. -/
def Orderly (ops : List Op) : Prop := ∀ rest, rest <:+ ops → InOrder rest

theorem Orderly.inOrder {ops : List Op} (h : Orderly ops) : InOrder ops := h ops List.suffix_rfl

theorem orderly_cons {op : Op} {ops : List Op} :
    Orderly (op :: ops) ↔ InOrder (op :: ops) ∧ Orderly ops := by
  constructor
  · exact fun h => ⟨h.inOrder, fun rest hrest => h rest (hrest.trans (List.suffix_cons op ops))⟩
  · rintro ⟨hop, h⟩ rest hrest
    rcases List.suffix_cons_iff.mp hrest with rfl | hrest
    · exact hop
    · exact h rest hrest

theorem orderly_nil : Orderly [] := by
  intro rest hrest
  rw [List.suffix_nil.mp hrest]
  exact ⟨Nat.zero_le 1, fun k => le_rfl⟩

/-- An update that counts no request. -/
theorem Orderly.cons {ops : List Op} (h : Orderly ops) {c : Counter} (m : ℕ)
    (hc : ∀ k : Tally, c ≠ k.counter) : Orderly (.add c m :: ops) := by
  refine orderly_cons.mpr ⟨⟨?_, fun k => ?_⟩, h⟩
  · simpa using h.inOrder.one
  · simpa [hc k] using h.inOrder.first k

theorem orderly_storeStop : Orderly [.storeStop] :=
  orderly_cons.mpr ⟨⟨Nat.zero_le 1, fun _ => le_rfl⟩, orderly_nil⟩

theorem toRecord_le_underWay (k : Tally) (ops : List Op) :
    toRecord k ops ≤ weigh Op.underWay ops := by
  induction ops with
  | nil => exact le_rfl
  | cons op ops ih =>
    have hop : Op.records k op ≤ Op.underWay op := by
      cases op with
      | record s =>
        simp only [Op.records_record, Op.underWay_record]
        split_ifs <;> omega
      | _ => simp
    rw [toRecord, weigh_cons, weigh_cons]
    exact Nat.add_le_add hop ih

/-- The counter for the outcome of a request. -/
def RequestSample.outcome (s : RequestSample) : Counter := if s.success then .succeeded else .failed

/-- A request is counted twice, in whatever order, and then recorded. -/
theorem orderly_request (s : RequestSample) {a b : Counter} {rest : List Op} (h : Orderly rest)
    (hrest : weigh Op.underWay rest = 0)
    (hab : a = .completed ∧ b = s.outcome ∨ a = s.outcome ∧ b = .completed) :
    Orderly (.add a 1 :: .add b 1 :: .record s :: rest) := by
  have howed : ∀ k : Tally, owed k.counter rest = 0 := fun k =>
    Nat.le_zero.mp ((h.inOrder.first k).trans ((toRecord_le_underWay k rest).trans_eq hrest))
  have hnone : ∀ k : Tally, toRecord k rest = 0 := fun k =>
    Nat.le_zero.mp ((toRecord_le_underWay k rest).trans_eq hrest)
  simp only [orderly_cons, inOrder_iff, weigh_cons, Op.underWay_add, Op.underWay_record,
    Op.adds_add, Op.adds_record, Op.records_add, Op.records_record, hrest, howed, hnone]
  refine ⟨⟨by omega, fun k => ?_⟩, ⟨by omega, fun k => ?_⟩, ⟨by omega, fun k => ?_⟩, h⟩
  all_goals
    rcases hab with ⟨rfl, rfl⟩ | ⟨rfl, rfl⟩ <;> cases k <;> cases hs : s.success <;>
      simp [RequestSample.outcome, Tally.counter, Tally.holds, hs]

theorem EventWorker.orderly_dataEvent (cfg : Config) (env : Env) (data : Bytes) (old : Session) :
    Orderly (dataEvent cfg env data old).1 := by
  have hd := dataEvent_digested cfg env data old
  generalize dataEvent cfg env data old = r at hd
  cases hd with
  | other | awaited => exact orderly_nil
  | rejected => exact orderly_request _ orderly_nil rfl (.inr ⟨rfl, rfl⟩)
  | finished => exact orderly_request _ orderly_nil rfl (.inl ⟨rfl, rfl⟩)

theorem EventWorker.Move.orderly {cfg : Config} {i : Fin n} {env : Env} {sh : Shared n}
    {w : EventWorker} {r : Shared n × List Op × EventWorker} (hm : w.Move cfg i env sh r) :
    Orderly r.2.1 := by
  cases hm with
  | notStarted | notOpened | pollFailed => exact orderly_storeStop
  | sent =>
    refine Orderly.cons ?_ _ bytesSent_ne
    exact orderly_request _ orderly_nil rfl (.inr ⟨rfl, rfl⟩)
  | requested => exact orderly_nil.cons _ bytesSent_ne
  | sendFailed => exact orderly_request _ orderly_nil rfl (.inr ⟨rfl, rfl⟩)
  | errored =>
    unfold errorOps
    split_ifs
    · exact orderly_request _ orderly_nil rfl (.inr ⟨rfl, rfl⟩)
    · exact orderly_nil
  | received => exact (orderly_dataEvent _ _ _ _).cons _ bytesReceived_ne
  | retried => exact orderly_nil.cons _ retried_ne
  | _ => exact orderly_nil

theorem Slot.Move.orderly {cfg : Config} {i : Fin n} {env : Env} {sh : Shared n} {s : Slot}
    {r : Shared n × List Op × Slot} (hm : s.Move cfg i env sh r) : Orderly r.2.1 := by
  cases hm with
  | notStarted => exact orderly_storeStop
  | retried => exact orderly_nil.cons _ retried_ne
  | gaveUp => exact orderly_request _ orderly_storeStop rfl (.inr ⟨rfl, rfl⟩)
  | performed client result status ok retry hc hops =>
    have hrequest : ∀ {rest : List Op}, Orderly rest → weigh Op.underWay rest = 0 →
        Orderly (resultOps env.nowNs result status ok ++ rest) := by
      intro rest h h0
      refine Orderly.cons (Orderly.cons ?_ _ bytesReceived_ne) _ bytesSent_ne
      exact orderly_request _ h h0 (.inl ⟨rfl, rfl⟩)
    rcases hops with rfl | rfl
    · exact hrequest orderly_nil rfl
    · exact hrequest (orderly_nil.cons _ retried_ne) rfl
  | _ => exact orderly_nil

theorem Op.Exec.orderly {sh : Shared n} {rest : List Op} {i : Option (Fin n)} {op : Op}
    {r : Shared n × List Op} (hx : op.Exec sh rest i r) (h : Orderly (op :: rest)) :
    Orderly r.2 := by
  obtain ⟨hop, hrest⟩ := orderly_cons.mp h
  cases hx with
  | record i s =>
    refine orderly_cons.mpr ⟨⟨?_, fun k => ?_⟩, hrest⟩
    · simpa using hop.one
    · simpa using hrest.inOrder.first k
  | recording => exact h
  | _ => exact hrest

namespace Engine

variable {cfg : Config} {beginNs : ℕ} {c : Conf cfg.threadCount}

theorem Move.orderly {env : Env} {sh : Shared n} {i : Option (Fin n)} {t : Thread}
    {r : Shared n × Thread} (hm : Move cfg env sh i t r) (h : Orderly t.ops) :
    Orderly r.2.ops := by
  cases hm with
  | op body hx => exact hx.orderly h
  | @main m r hr =>
    have hf := mainStep_frame cfg env sh m
    rw [← hr] at hf
    rcases hf.ops with hops | hops
    · exact hops ▸ orderly_nil
    · exact hops ▸ orderly_storeStop
  | event hm => exact hm.orderly
  | slot hm => exact hm.orderly
  | stay => exact orderly_nil

theorem Runs.orderly (h : Runs cfg beginNs c) (i : Option (Fin cfg.threadCount)) :
    Orderly (c.locals i).ops := by
  refine h.local_invariant (J := fun t => Orderly t.ops) i ?_ ?_
  · cases i <;> exact orderly_nil
  · intro c e _ _ ht
    exact (step_move cfg i e c.shared (c.locals i)).orderly ht

end Engine

/-! ## The statistics -/

/-- What a snapshot shows of each tally. A dropped sample is of no known outcome. -/
def StatsSnapshot.recorded (s : StatsSnapshot) : Tally → ℕ
  | .all => s.totalRequests + s.droppedSamples
  | .success => s.successRequests
  | .failure => s.failedRequests

/-- A snapshot shows no less than an earlier one. -/
structure StatsSnapshot.Le (s s' : StatsSnapshot) : Prop where
  total : s.totalRequests ≤ s'.totalRequests
  success : s.successRequests ≤ s'.successRequests
  failed : s.failedRequests ≤ s'.failedRequests
  sent : s.bytesSent ≤ s'.bytesSent
  received : s.bytesReceived ≤ s'.bytesReceived
  dropped : s.droppedSamples ≤ s'.droppedSamples
  errors : ∀ i, s.errorCounts i ≤ s'.errorCounts i
  slowest : s.maxLatencyNs ≤ s'.maxLatencyNs

theorem StatsSnapshot.Le.trans {s s' s'' : StatsSnapshot} (h : s.Le s') (h' : s'.Le s'') :
    s.Le s'' :=
  ⟨h.total.trans h'.total, h.success.trans h'.success, h.failed.trans h'.failed,
    h.sent.trans h'.sent, h.received.trans h'.received, h.dropped.trans h'.dropped,
    fun i => (h.errors i).trans (h'.errors i), h.slowest.trans h'.slowest⟩

theorem le_bump (counts : ℕ → ℕ) (i j : ℕ) : counts j ≤ bump counts i j := by
  unfold bump
  by_cases hj : j = i
  · subst hj
    rw [Function.update_self]
    exact Nat.le_succ _
  · rw [Function.update_of_ne hj]

section Snapshots

variable (mask mask' start start' now now' later later' : ℕ)

theorem snapshot_maxLatencyNs (t : Totals) : (snapshot mask start now later t).maxLatencyNs
    = if t.totalRequests > 0 then t.maxLatencyNs else 0 := by
  unfold snapshot
  dsimp only
  split_ifs <;> rfl

theorem snapshot_le_same (t : Totals) :
    (snapshot mask start now later t).Le (snapshot mask' start' now' later' t) := by
  refine ⟨le_rfl, le_rfl, le_rfl, le_rfl, le_rfl, le_rfl, fun _ => le_rfl, ?_⟩
  rw [snapshot_maxLatencyNs, snapshot_maxLatencyNs]

theorem snapshot_le_record (t : Totals) (qpsMask nowNs : ℕ) (sample : RequestSample) :
    (snapshot mask start now later t).Le
      (snapshot mask' start' now' later' (recordFastPath qpsMask nowNs sample t)) := by
  refine ⟨Nat.le_succ _, ?success, ?failed, Nat.le_add_right _ _, Nat.le_add_right _ _, le_rfl,
    fun i => le_bump _ _ i, ?slowest⟩
  case success =>
    show t.successRequests ≤ if sample.success then t.successRequests + 1 else t.successRequests
    split_ifs <;> omega
  case failed =>
    show t.failedRequests ≤ if sample.success then t.failedRequests else t.failedRequests + 1
    split_ifs <;> omega
  case slowest =>
    rw [snapshot_maxLatencyNs, snapshot_maxLatencyNs]
    show _ ≤ if t.totalRequests + 1 > 0 then
      (if sample.latencyNs > t.maxLatencyNs then sample.latencyNs else t.maxLatencyNs) else 0
    split_ifs <;> omega

theorem snapshot_le_dropped (t : Totals) (m : ℕ) :
    (snapshot mask start now later t).Le
      (snapshot mask' start' now' later' { t with droppedSamples := t.droppedSamples + m }) := by
  refine ⟨le_rfl, le_rfl, le_rfl, le_rfl, le_rfl, Nat.le_add_right _ _, fun _ => le_rfl, ?_⟩
  rw [snapshot_maxLatencyNs, snapshot_maxLatencyNs]

end Snapshots

theorem Collector.Turn.snapshot_le {c c' : Collector (Fin n)} {i : Option (Fin n)}
    (h : c.Turn i c') (mask mask' start start' now now' later later' : ℕ) :
    (snapshot mask start now later c.totals).Le
      (snapshot mask' start' now' later' c'.totals) := by
  have hsame := snapshot_le_same mask mask' start start' now now' later later' c.totals
  cases h with
  | same => exact hsame
  | create i =>
    unfold Collector.createWriter
    split_ifs <;> exact hsame
  | record i sample =>
    unfold Collector.recordStep
    split_ifs <;> exact hsame
  | drain nowNs =>
    unfold Collector.drainStep
    cases c.drain with
    | nextWriter todo => cases todo <;> exact hsame
    | consume i r write todo =>
      dsimp only
      split_ifs
      · exact snapshot_le_record _ _ _ _ _ _ _ _ _ _ _ _
      · exact hsame
    | addDropped m todo => exact snapshot_le_dropped _ _ _ _ _ _ _ _ _ _
    | _ => exact hsame

namespace Collector

variable {c c' : Collector (Fin n)} {k : ℕ} {mark : Fin n → Mark}

theorem Turn.reached {i : Option (Fin n)} (h : c.Turn i c') (hreached : c.Reached mark) :
    c'.Reached mark := by
  cases h with
  | same => exact hreached
  | create i => exact hreached.createWriter i
  | record i s => exact hreached.recordStep i s
  | drain nowNs => exact hreached.drainStep nowNs

theorem Turn.catchingUp {i : Fin n} (h : c.Turn (some i) c') (hcatching : c.CatchingUp mark) :
    c'.CatchingUp mark := by
  cases h with
  | same => exact hcatching
  | create i => exact hcatching.createWriter i
  | record i s => exact hcatching.recordStep i s

/-- What has been handed over of the samples of `p`, and what was rejected, was recorded. -/
theorem countP_handed_le (h : c.Inv k) (p : RequestSample → Bool) :
    (c.handed.map (·.2)).countP p + ∑ i, (c.writers i).rejected.countP p
      ≤ ∑ i, (c.writers i).calls.countP p := by
  rw [← sum_consumed, ← Finset.sum_add_distrib]
  refine Finset.sum_le_sum fun i _ => ?_
  have hconsumed : (c.consumed i).countP p ≤ (c.writers i).accepted.countP p := by
    rw [(h.seen i).consumed_eq]
    exact (List.take_sublist _ _).countP_le
  have hcalls := (h.seen i).inv.calls.countP_eq p
  rw [List.countP_append, List.countP_append] at hcalls
  omega

/-- The drops that were moved to the totals are rejected samples. -/
theorem dropped_le (h : c.Inv k) :
    c.totals.droppedSamples ≤ ∑ i, (c.writers i).rejected.length := by
  have hsum := c.sum_movedOf
  have hmoved : ∑ i, c.movedOf i ≤ ∑ i, (c.writers i).rejected.length :=
    Finset.sum_le_sum fun i _ => (Nat.le_add_right _ _).trans_eq (h.seen i).rejected.symm
  have hdropped := h.droppedTotal
  omega

/-- The statistics show recorded samples only. -/
theorem recorded_le_calls (h : c.Inv k) (tally : Tally) (mask start now later : ℕ) :
    (snapshot mask start now later c.totals).recorded tally ≤ c.callsOf tally := by
  have hcounts := h.counts
  have hle := c.countP_handed_le h tally.holds
  cases tally with
  | all =>
    have hdropped := dropped_le h
    have htotal := hcounts.total
    simp only [Tally.holds, List.countP_true] at hle
    show c.totals.totalRequests + c.totals.droppedSamples ≤ c.callsOf .all
    simp only [callsOf, Tally.holds, List.countP_true]
    omega
  | success => exact hcounts.success.le.trans (Nat.le_of_add_right_le hle)
  | failure => exact hcounts.failed.le.trans (Nat.le_of_add_right_le hle)

end Collector

/-! ## The counters and the statistics -/

/-- The counters and the statistics are in step but for one request of each worker. -/
structure InStep (sh : Shared n) : Prop where
  collector : sh.stats.Inv 12
  recorded : ∀ (k : Tally) (mask start now later : ℕ),
    (snapshot mask start now later sh.stats.totals).recorded k ≤ sh.counters k.counter
  marked : sh.counters .completed
    ≤ ∑ i, ((sh.stats.marks i).accepted + (sh.stats.marks i).rejected) + n
  settled : sh.counters .completed ≤ sh.counters .succeeded + sh.counters .failed + n

namespace Engine

variable {cfg : Config} {beginNs : ℕ} {c : Conf cfg.threadCount}

theorem Runs.owed_le (h : Runs cfg beginNs c) (k : Tally) :
    ∑ i, owed k.counter (c.locals i).ops ≤ ∑ i, toRecord k (c.locals i).ops :=
  Finset.sum_le_sum fun i _ => (h.orderly i).inOrder.first k

/-- What is recorded has been counted. -/
theorem Runs.calls_le (h : Runs cfg beginNs c) (k : Tally) :
    c.shared.stats.callsOf k ≤ c.shared.counters k.counter := by
  have haccount := h.account k
  have howed := h.owed_le k
  omega

/-- The samples a worker has still to record, or is recording. -/
theorem Runs.underWay_le (h : Runs cfg beginNs c) (i : Fin cfg.threadCount) :
    (c.shared.stats.writers i).pc.sample.length + toRecord .all (c.locals (some i)).ops ≤ 1 := by
  have hone := (h.orderly (some i)).inOrder.one
  have hle := toRecord_le_underWay .all (c.locals (some i)).ops
  by_cases hpc : (c.shared.stats.writers i).pc = .idle
  · rw [hpc]
    exact (Nat.zero_add _).le.trans (hle.trans hone)
  · obtain ⟨rest, hops⟩ := (h.writerOk i).busy hpc
    have hrest : weigh (Op.records .all) rest ≤ weigh Op.underWay rest :=
      toRecord_le_underWay .all rest
    have hsample : (c.shared.stats.writers i).pc.sample.length ≤ 1 := by
      cases (c.shared.stats.writers i).pc <;> simp [RecordPc.sample]
    rw [hops] at hone ⊢
    simp only [weigh_cons, Op.underWay_recording, Op.records_recording] at hone ⊢
    omega

/-- The main thread records nothing. -/
theorem Runs.sum_toRecord (h : Runs cfg beginNs c) (k : Tally) :
    ∑ i, toRecord k (c.locals i).ops = ∑ i, toRecord k (c.locals (some i)).ops := by
  have hmain : toRecord k (c.locals none).ops = 0 :=
    weigh_mainOps (Op.records_storeStop k) h.mainOps
  rw [Fintype.sum_option, hmain, Nat.zero_add]

theorem Runs.marked (h : Runs cfg beginNs c) : c.shared.counters .completed
    ≤ ∑ i, ((c.shared.stats.marks i).accepted + (c.shared.stats.marks i).rejected)
      + cfg.threadCount := by
  have haccount := h.account .all
  rw [h.sum_toRecord] at haccount
  have hsum : c.shared.stats.callsOf .all + ∑ i, toRecord .all (c.locals (some i)).ops
      ≤ ∑ i, ((c.shared.stats.marks i).accepted + (c.shared.stats.marks i).rejected + 1) := by
    rw [Collector.callsOf, ← Finset.sum_add_distrib]
    refine Finset.sum_le_sum fun i _ => ?_
    have hcalls := (h.collector.seen i).inv.calls.length_eq
    have hunder := h.underWay_le i
    simp only [List.length_append] at hcalls
    simp only [Collector.marks, Tally.holds, List.countP_true]
    omega
  rw [Finset.sum_add_distrib, ← Finset.card_eq_sum_ones, Finset.card_fin] at hsum
  simp only [Tally.counter] at haccount
  omega

theorem callsOf_all (stats : Collector (Fin n)) :
    stats.callsOf .all = stats.callsOf .success + stats.callsOf .failure := by
  unfold Collector.callsOf
  rw [← Finset.sum_add_distrib]
  refine Finset.sum_congr rfl fun i _ => ?_
  simp only [Tally.holds, Collector.countP_add_countP_not, List.countP_true]

theorem toRecord_all (ops : List Op) :
    toRecord .all ops = toRecord .success ops + toRecord .failure ops := by
  induction ops with
  | nil => rfl
  | cons op ops ih =>
    have hop : Op.records .all op = Op.records .success op + Op.records .failure op := by
      cases op with
      | record s => cases hs : s.success <;> simp [Tally.holds, hs]
      | _ => rfl
    simp only [toRecord, weigh_cons] at ih ⊢
    omega

/-- A completed request has its outcome, but for one of each worker. -/
theorem Runs.settled (h : Runs cfg beginNs c) : c.shared.counters .completed
    ≤ c.shared.counters .succeeded + c.shared.counters .failed + cfg.threadCount := by
  have hall := h.account .all
  have hsuccess := h.account .success
  have hfailure := h.account .failure
  have howedSuccess := h.owed_le .success
  have howedFailure := h.owed_le .failure
  have hcalls := callsOf_all c.shared.stats
  have hsplit : ∑ i, toRecord .all (c.locals i).ops
      = ∑ i, toRecord .success (c.locals i).ops + ∑ i, toRecord .failure (c.locals i).ops := by
    rw [← Finset.sum_add_distrib]
    exact Finset.sum_congr rfl fun i _ => toRecord_all _
  have hfew : ∑ i, toRecord .all (c.locals i).ops ≤ cfg.threadCount := by
    rw [h.sum_toRecord]
    have hle := Finset.sum_le_sum fun i (_ : i ∈ Finset.univ) => (h.underWay_le i)
    rw [Finset.sum_add_distrib, ← Finset.card_eq_sum_ones, Finset.card_fin] at hle
    omega
  simp only [Tally.counter] at hall hsuccess hfailure howedSuccess howedFailure
  omega

theorem Runs.inStep (h : Runs cfg beginNs c) : InStep c.shared where
  collector := h.collector
  recorded k mask start now later :=
    (Collector.recorded_le_calls h.collector k mask start now later).trans (h.calls_le k)
  marked := h.marked
  settled := h.settled

end Engine

end TitanBench
