import TitanBench.StatsDrain
import Mathlib.Algebra.Order.BigOperators.Group.Finset

/-!
# A drain while the writers record

The writers go on recording while a drain runs. Each has a mark: how many of its calls were done
at some moment before the drain began. A drain from its start to its end gets past all marks,
whatever is recorded in the meantime.

* `Collector.Reached` — the writers have come to their marks, and never go back.
* `Collector.CatchingUp` — how far the drain has come; `catchingUp_begin` and the step lemmas.
* `CatchingUp.sum_le` — at its end the totals and the drops make up what was marked.
-/

namespace TitanBench

/-- How many calls of a writer were accepted, and how many rejected. -/
structure Mark where
  accepted : ℕ
  rejected : ℕ

namespace Collector

variable {ι : Type*} [DecidableEq ι] {k : ℕ} {c : Collector ι} {mark : ι → Mark}

/-! ## The marks -/

/-- The marks of this moment. -/
def marks (c : Collector ι) (i : ι) : Mark :=
  ⟨(c.writers i).accepted.length, (c.writers i).rejected.length⟩

/-- The writers have come to their marks. -/
def Reached (c : Collector ι) (mark : ι → Mark) : Prop :=
  ∀ i, (mark i).accepted ≤ (c.writers i).accepted.length ∧
    (mark i).rejected ≤ (c.writers i).rejected.length

omit [DecidableEq ι] in
theorem reached_marks (c : Collector ι) : c.Reached c.marks := fun _ => ⟨le_rfl, le_rfl⟩

/-- A call that is done stays done. -/
theorem length_recordStep (w : Writer) (capacity : ℕ) (sample : RequestSample) :
    w.accepted.length ≤ (w.recordStep capacity sample).accepted.length ∧
      w.rejected.length ≤ (w.recordStep capacity sample).rejected.length := by
  refine ⟨(Writer.accepted_recordStep capacity sample).length_le, ?_⟩
  unfold Writer.recordStep
  split
  case h_2 => split_ifs <;> exact le_rfl
  case h_3 => simp
  all_goals exact le_rfl

theorem Reached.createWriter (h : c.Reached mark) (i : ι) : (c.createWriter i).Reached mark := by
  unfold Collector.createWriter
  split_ifs <;> exact h

theorem Reached.recordStep (h : c.Reached mark) (i : ι) (sample : RequestSample) :
    (c.recordStep i sample).Reached mark := by
  unfold Collector.recordStep
  split_ifs
  · intro j
    show _ ≤ (Function.update c.writers i _ j).accepted.length ∧
      _ ≤ (Function.update c.writers i _ j).rejected.length
    by_cases hj : j = i
    · subst hj
      have hlength := length_recordStep (c.writers j) c.ringCapacity sample
      rw [Function.update_self]
      exact ⟨(h j).1.trans hlength.1, (h j).2.trans hlength.2⟩
    · rw [Function.update_of_ne hj]
      exact h j
  · exact h

/-- A drain leaves the calls to the writers. -/
theorem Reached.drainStep (h : c.Reached mark) (nowNs : ℕ) : (c.drainStep nowNs).Reached mark := by
  have hupdate : ∀ (i : ι) (w : Writer), w.accepted = (c.writers i).accepted →
      w.rejected = (c.writers i).rejected → ∀ j,
      (mark j).accepted ≤ (Function.update c.writers i w j).accepted.length ∧
        (mark j).rejected ≤ (Function.update c.writers i w j).rejected.length := by
    intro i w haccepted hrejected j
    by_cases hj : j = i
    · subst hj
      rw [Function.update_self, haccepted, hrejected]
      exact h j
    · rw [Function.update_of_ne hj]
      exact h j
  unfold Collector.drainStep
  cases c.drain with
  | nextWriter todo => cases todo <;> exact h
  | consume i r write todo =>
    dsimp only
    split_ifs
    · exact h
    · exact hupdate i _ rfl rfl
  | exchange i todo => exact hupdate i _ rfl rfl
  | _ => exact h

/-! ## The drain -/

/-- The consumer is past the mark of writer `i`. -/
def Past (c : Collector ι) (mark : ι → Mark) (i : ι) : Prop :=
  (mark i).accepted ≤ (c.consumed i).length ∧ (mark i).rejected ≤ c.movedOf i

/-- The consumer is past the marks of all writers but those it has still to visit. -/
def CatchingUp (c : Collector ι) (mark : ι → Mark) : Prop :=
  match c.drain with
  | .idle => ∀ j, c.Past mark j
  | .nextWriter todo | .addDropped _ todo => ∀ j, j ∉ todo → c.Past mark j
  | .loadWrite i _ todo => ∀ j, j ∉ i :: todo → c.Past mark j
  | .consume i _ write todo =>
    (mark i).accepted ≤ write ∧ ∀ j, j ∉ i :: todo → c.Past mark j
  | .exchange i todo =>
    (mark i).accepted ≤ (c.consumed i).length ∧ ∀ j, j ∉ i :: todo → c.Past mark j

theorem past_unregistered (h : c.Inv k) (hreached : c.Reached mark) {i : ι}
    (hi : i ∉ c.registered) : c.Past mark i := by
  have hw := (h.seen i).fresh hi
  obtain ⟨haccepted, hrejected⟩ := hreached i
  rw [hw] at haccepted hrejected
  exact ⟨haccepted.trans (Nat.zero_le _), hrejected.trans (Nat.zero_le _)⟩

theorem catchingUp_begin (h : c.Inv k) (hreached : c.Reached mark) (hidle : c.drain = .idle)
    (nowNs : ℕ) : (c.drainStep nowNs).CatchingUp mark := by
  unfold Collector.drainStep
  rw [hidle]
  exact fun j hj => past_unregistered h hreached hj

theorem CatchingUp.createWriter (h : c.CatchingUp mark) (i : ι) :
    (c.createWriter i).CatchingUp mark := by
  unfold Collector.createWriter
  split_ifs <;> exact h

theorem CatchingUp.recordStep (h : c.CatchingUp mark) (i : ι) (sample : RequestSample) :
    (c.recordStep i sample).CatchingUp mark := by
  unfold Collector.recordStep
  split_ifs <;> exact h

/-- The steps of the drain. -/
theorem CatchingUp.drainStep (h : c.Inv k) (hreached : c.Reached mark) (hs : c.CatchingUp mark)
    (hrun : c.drain ≠ .idle) (nowNs : ℕ) : (c.drainStep nowNs).CatchingUp mark := by
  have hseen := h.seen
  unfold CatchingUp at hs
  unfold Collector.drainStep
  cases hc : c.drain with
  | idle => exact absurd hc hrun
  | nextWriter todo =>
    rw [hc] at hs
    cases todo with
    | nil => exact fun j => hs j List.not_mem_nil
    | cons i todo => exact hs
  | loadWrite i r todo =>
    rw [hc] at hs
    refine ⟨?_, hs⟩
    rw [(hseen i).inv.write_eq]
    exact (hreached i).1
  | consume i r write todo =>
    rw [hc] at hs
    obtain ⟨hwrite, hs⟩ := hs
    by_cases hlt : r < write
    · simp only [hlt, if_true]
      refine ⟨hwrite, fun j hj => ?_⟩
      have hne : j ≠ i := fun heq => hj (heq ▸ List.mem_cons_self)
      have hold := hs j hj
      simp only [Past, consumed] at hold ⊢
      rw [logOf_concat_ne _ hne]
      exact hold
    · simp only [hlt, if_false]
      refine ⟨?_, hs⟩
      -- The consumer's position is the number of samples it has consumed.
      have hi := hseen i
      rw [hc] at hi
      simp only [DrainPc.position, if_true] at hi
      have hlength : (c.consumed i).length = r := by
        rw [hi.consumed_eq]
        exact List.length_take_of_le hi.position_le
      show (mark i).accepted ≤ (c.consumed i).length
      omega
  | exchange i todo =>
    rw [hc] at hs
    intro j hj
    have hmoved : ∀ j, j ≠ i →
        (logOf (c.moved ++ [(i, (c.writers i).dropped)]) j).sum = c.movedOf j :=
      fun j hj => by rw [logOf_concat_ne _ hj]; rfl
    by_cases hji : j = i
    · subst hji
      refine ⟨hs.1, ?_⟩
      show (mark j).rejected ≤ (logOf (c.moved ++ [(j, (c.writers j).dropped)]) j).sum
      rw [logOf_concat_self, List.sum_append, List.sum_singleton]
      have hrejected := (hseen j).rejected
      exact (hreached j).2.trans_eq hrejected
    · have hold := hs.2 j (List.not_mem_cons_of_ne_of_not_mem hji hj)
      refine ⟨hold.1, ?_⟩
      show (mark j).rejected ≤ (logOf (c.moved ++ [(i, (c.writers i).dropped)]) j).sum
      rw [hmoved j hji]
      exact hold.2
  | addDropped m todo =>
    rw [hc] at hs
    exact hs

/-! ## Sums over the writers -/

section Sums

variable [Fintype ι]

theorem sum_consumed (c : Collector ι) (p : RequestSample → Bool) :
    ∑ i, (c.consumed i).countP p = (c.handed.map (·.2)).countP p := by
  simp only [countP_eq_sum, List.map_map]
  exact sum_logOf (fun s => if p s then 1 else 0) c.handed

theorem sum_movedOf (c : Collector ι) : ∑ i, c.movedOf i = (c.moved.map (·.2)).sum := by
  rw [← sum_logOf (fun m : ℕ => m) c.moved]
  exact Finset.sum_congr rfl fun i _ => by rw [movedOf, List.map_id']

/-- **What was marked has been counted** when the drain is over: among the totals or the drops. -/
theorem CatchingUp.sum_le (h : c.Inv k) (hs : c.CatchingUp mark) (hidle : c.drain = .idle) :
    ∑ i, ((mark i).accepted + (mark i).rejected)
      ≤ c.totals.totalRequests + c.totals.droppedSamples := by
  unfold CatchingUp at hs
  rw [hidle] at hs
  have hhanded : ∑ i, (c.consumed i).length = c.totals.totalRequests := by
    have hsum := c.sum_consumed fun _ => true
    simp only [List.countP_true] at hsum
    rw [hsum, h.counts.total]
  have hmoved : ∑ i, c.movedOf i = c.totals.droppedSamples := by
    have hdropped := h.droppedTotal
    rw [inTransit, hidle, Nat.add_zero] at hdropped
    rw [sum_movedOf, hdropped]
  rw [Finset.sum_add_distrib, ← hhanded, ← hmoved]
  exact Nat.add_le_add (Finset.sum_le_sum fun i _ => (hs i).1)
    (Finset.sum_le_sum fun i _ => (hs i).2)

end Sums

end Collector

end TitanBench
