import Mathlib.Algebra.BigOperators.Ring.Finset
import TitanBench.StatsRingFifo

/-!
# A drain that runs alone

While no writer records, a drain that runs from its start to its end hands over everything every
writer has accepted and takes over all its drops.

* `Collector.Sweep` — how far such a drain has come; `sweep_begin` and `Sweep.drainStep` keep it.
* `Collector.Inv.balance` — after it, the totals and the drops make up all calls of `Record`.
-/

namespace TitanBench

open RingBuffer

namespace Collector

variable {ι : Type*} [DecidableEq ι] {k : ℕ} {c : Collector ι}

/-! ## The sweep -/

/-- Nothing of writer `i` is left to be drained. -/
def Cleared (c : Collector ι) (i : ι) : Prop :=
  c.consumed i = (c.writers i).accepted ∧ (c.writers i).dropped = 0

/-- A drain that is under way while nobody records: all writers are cleared but those it has still
to visit. -/
def Sweep (c : Collector ι) : Prop :=
  match c.drain with
  | .idle => ∀ i, c.Cleared i
  | .nextWriter todo | .addDropped _ todo => ∀ j, j ∉ todo → c.Cleared j
  | .loadWrite i _ todo => ∀ j, j ∉ i :: todo → c.Cleared j
  | .consume i _ write todo =>
    write = (c.writers i).accepted.length ∧ ∀ j, j ∉ i :: todo → c.Cleared j
  | .exchange i todo =>
    c.consumed i = (c.writers i).accepted ∧ ∀ j, j ∉ i :: todo → c.Cleared j

theorem cleared_unregistered (h : c.Inv k) {i : ι} (hi : i ∉ c.registered) : c.Cleared i := by
  have hs := h.seen i
  refine ⟨?_, by rw [hs.fresh hi]⟩
  rw [hs.consumed_eq, hs.fresh hi]
  exact List.take_nil

theorem sweep_begin (h : c.Inv k) (hidle : c.drain = .idle) (nowNs : ℕ) :
    (c.drainStep nowNs).Sweep := by
  unfold Collector.drainStep
  rw [hidle]
  exact fun j hj => cleared_unregistered h hj

/-- The steps of the drain. -/
theorem Sweep.drainStep (h : c.Inv k) (hs : c.Sweep) (hrun : c.drain ≠ .idle) (nowNs : ℕ) :
    (c.drainStep nowNs).Sweep := by
  unfold Sweep at hs
  have hseen := h.seen
  unfold Collector.drainStep
  cases hc : c.drain with
  | idle => exact absurd hc hrun
  | nextWriter todo =>
    rw [hc] at hs
    cases todo with
    | nil => exact fun j => hs j List.not_mem_nil
    | cons i todo => exact hs
  | loadWrite i r todo =>
    rw [hc] at hs
    exact ⟨(hseen i).inv.write_eq, hs⟩
  | consume i r write todo =>
    rw [hc] at hs
    obtain ⟨rfl, hs⟩ := hs
    have hi := hseen i
    rw [hc] at hi
    simp only [DrainPc.position, if_true] at hi
    by_cases hlt : r < (c.writers i).accepted.length
    · simp only [hlt, if_true]
      refine ⟨rfl, fun j hj => ?_⟩
      have hne : j ≠ i := fun heq => hj (heq ▸ List.mem_cons_self)
      have hold := hs j hj
      simp only [Cleared, consumed] at hold ⊢
      rw [logOf_concat_ne _ hne]
      exact hold
    · simp only [hlt, if_false]
      refine ⟨?_, fun j hj => ?_⟩
      · show c.consumed i = (Function.update c.writers i _ i).accepted
        rw [Function.update_self, hi.consumed_eq]
        exact List.take_of_length_le (not_lt.mp hlt)
      · have hne : j ≠ i := fun heq => hj (heq ▸ List.mem_cons_self)
        have hold := hs j hj
        simp only [Cleared, consumed] at hold ⊢
        rw [Function.update_of_ne hne]
        exact hold
  | exchange i todo =>
    rw [hc] at hs
    intro j hj
    simp only [Cleared, consumed] at hs ⊢
    by_cases hji : j = i
    · subst hji
      rw [Function.update_self]
      exact ⟨hs.1, rfl⟩
    · rw [Function.update_of_ne hji]
      exact hs.2 j (List.not_mem_cons_of_ne_of_not_mem hji hj)
  | addDropped m todo =>
    rw [hc] at hs
    exact hs

/-! ## Received bytes -/

/-- `bytes_received` is the sum over the samples handed to `RecordFastPath`. -/
def BytesSummed (c : Collector ι) : Prop :=
  c.totals.bytesReceived = (c.handed.map (·.2.bytesReceived)).sum

theorem BytesSummed.createWriter (h : c.BytesSummed) (i : ι) : (c.createWriter i).BytesSummed := by
  unfold Collector.createWriter
  split_ifs <;> exact h

theorem BytesSummed.recordStep (h : c.BytesSummed) (i : ι) (sample : RequestSample) :
    (c.recordStep i sample).BytesSummed := by
  unfold Collector.recordStep
  split_ifs <;> exact h

theorem BytesSummed.drainStep (h : c.BytesSummed) (nowNs : ℕ) :
    (c.drainStep nowNs).BytesSummed := by
  unfold BytesSummed at h ⊢
  unfold Collector.drainStep
  cases c.drain with
  | nextWriter todo => cases todo <;> exact h
  | consume i r write todo =>
    dsimp only
    split_ifs
    · rw [List.map_append, List.sum_append, ← h]
      simp [recordFastPath]
    · exact h
  | _ => exact h

/-! ## The books after a sweep -/

section Books

variable [Fintype ι]

/-- The entries of a common log are those of the writers together. -/
theorem sum_logOf {β : Type*} (f : β → ℕ) (log : List (ι × β)) :
    ∑ i, ((logOf log i).map f).sum = (log.map fun e => f e.2).sum := by
  induction log with
  | nil => simp [logOf]
  | cons e log ih =>
    have hcons : ∀ i, ((logOf (e :: log) i).map f).sum
        = (if e.1 = i then f e.2 else 0) + ((logOf log i).map f).sum := by
      intro i
      by_cases hi : e.1 = i <;> simp [logOf, hi]
    simp only [hcons, Finset.sum_add_distrib, Finset.sum_ite_eq, Finset.mem_univ, if_true, ih,
      List.map_cons, List.sum_cons]

theorem countP_eq_sum {β : Type*} (p : β → Bool) (l : List β) :
    l.countP p = (l.map fun b => if p b then 1 else 0).sum := by
  induction l with
  | nil => rfl
  | cons b l ih =>
    rw [List.countP_cons, ih, List.map_cons, List.sum_cons, Nat.add_comm]

theorem countP_add_countP_not {β : Type*} (p : β → Bool) (l : List β) :
    l.countP p + l.countP (!p ·) = l.length := by
  rw [List.length_eq_countP_add_countP p]
  simp

theorem sum_handed (g : RequestSample → ℕ) (hclear : ∀ i, c.Cleared i) :
    (c.handed.map fun e => g e.2).sum = ∑ i, ((c.writers i).accepted.map g).sum := by
  refine (sum_logOf g c.handed).symm.trans (Finset.sum_congr rfl fun i _ => ?_)
  rw [← (hclear i).1]
  rfl

/-- Every call of `Record` was handed over or rejected. -/
theorem Inv.sum_calls (h : c.Inv k) (hclear : ∀ i, c.Cleared i)
    (hpc : ∀ i, (c.writers i).pc = .idle) (g : RequestSample → ℕ) :
    ∑ i, ((c.writers i).calls.map g).sum
      = (c.handed.map fun e => g e.2).sum + ∑ i, ((c.writers i).rejected.map g).sum := by
  rw [sum_handed g hclear, ← Finset.sum_add_distrib]
  refine Finset.sum_congr rfl fun i _ => ?_
  have hcalls := (h.seen i).inv.calls
  rw [hpc i, RecordPc.sample, List.append_nil] at hcalls
  rw [(hcalls.map g).sum_eq, List.map_append, List.sum_append]

theorem Inv.countP_calls (h : c.Inv k) (hclear : ∀ i, c.Cleared i)
    (hpc : ∀ i, (c.writers i).pc = .idle) (p : RequestSample → Bool) :
    ∑ i, (c.writers i).calls.countP p
      = (c.handed.map (·.2)).countP p + ∑ i, (c.writers i).rejected.countP p := by
  simp only [countP_eq_sum, List.map_map]
  exact h.sum_calls hclear hpc _

/-- Every rejected sample is in `dropped_samples`. -/
theorem Inv.rejected_eq (h : c.Inv k) (hclear : ∀ i, c.Cleared i) (hidle : c.drain = .idle) :
    ∑ i, (c.writers i).rejected.length = c.totals.droppedSamples := by
  have hdropped := h.droppedTotal
  rw [inTransit, hidle, Nat.add_zero] at hdropped
  have hsum := sum_logOf (fun m : ℕ => m) c.moved
  rw [hdropped, ← hsum]
  refine Finset.sum_congr rfl fun i _ => ?_
  have hi := (h.seen i).rejected
  rw [(hclear i).2, Nat.add_zero] at hi
  rw [hi, movedOf, List.map_id']

/-- Without drops nothing was rejected. -/
theorem Inv.rejected_nil (h : c.Inv k) (hclear : ∀ i, c.Cleared i) (hidle : c.drain = .idle)
    (hdrops : c.totals.droppedSamples = 0) (i : ι) : (c.writers i).rejected = [] := by
  have hsum := h.rejected_eq hclear hidle
  rw [hdrops, Finset.sum_eq_zero_iff] at hsum
  exact List.length_eq_zero_iff.mp (hsum i (Finset.mem_univ i))

/-- **The totals and the drops make up all calls of `Record`**, after a drain that ran alone. -/
theorem Inv.balance (h : c.Inv k) (hclear : ∀ i, c.Cleared i) (hidle : c.drain = .idle)
    (hpc : ∀ i, (c.writers i).pc = .idle) :
    ∑ i, (c.writers i).calls.countP (fun _ => true)
        = c.totals.totalRequests + c.totals.droppedSamples ∧
      ∃ lostSuccess lostFailed, lostSuccess + lostFailed = c.totals.droppedSamples ∧
        ∑ i, (c.writers i).calls.countP (·.success) = c.totals.successRequests + lostSuccess ∧
        ∑ i, (c.writers i).calls.countP (!·.success) = c.totals.failedRequests + lostFailed := by
  have hrejected := h.rejected_eq hclear hidle
  refine ⟨?_, ∑ i, (c.writers i).rejected.countP (·.success),
    ∑ i, (c.writers i).rejected.countP (!·.success), ?_, ?_, ?_⟩
  · rw [h.countP_calls hclear hpc, h.counts.total, ← hrejected]
    simp only [List.countP_true]
  · rw [← hrejected, ← Finset.sum_add_distrib]
    exact Finset.sum_congr rfl fun i _ => countP_add_countP_not _ _
  · rw [h.countP_calls hclear hpc, h.counts.success]
  · rw [h.countP_calls hclear hpc, h.counts.failed]

end Books

end Collector

end TitanBench
