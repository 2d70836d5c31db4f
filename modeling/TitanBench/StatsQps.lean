import TitanBench.Lib.Recycled
import TitanBench.StatsTotals

/-!
# The requests of the current second

`UpdateQps` counts a sample in the slot its second falls on, and a slot starts again when it is
used for another second. The samples come from several rings, so the seconds are not in order.

**The time of a sample** (`stampNs`). A sample counts at its timestamp. A sample without one, with
timestamp zero, counts at the clock reading with which `Drain` records it.

**The slots as recycled cells** (`updateQps_touch`). The mask is one less than a power of two, so
the slots are the cells of `Recycled`, with seconds for keys.

Main result: `Collector.qps_current`.
-/

namespace TitanBench

open RingBuffer

/-! ## The slots -/

def QpsSlot.cell (s : QpsSlot) : Recycled.Cell := ⟨s.second, s.count⟩

/-- The slots as cells. -/
def qpsCells (slots : ℕ → QpsSlot) : ℕ → Recycled.Cell := fun i => (slots i).cell

theorem updateQps_touch (k tsNs : ℕ) (slots : ℕ → QpsSlot) :
    qpsCells (updateQps (2 ^ k - 1) tsNs slots) =
      Recycled.touch (2 ^ k) (qpsCells slots) (tsNs / nsPerSecond) := by
  funext i
  simp only [qpsCells, updateQps, Recycled.touch, Nat.and_two_pow_sub_one_eq_mod]
  by_cases hi : i = tsNs / nsPerSecond % 2 ^ k
  · subst hi
    rw [Function.update_self, Function.update_self]
    by_cases heq : (slots (tsNs / nsPerSecond % 2 ^ k)).second = tsNs / nsPerSecond
    · simp [QpsSlot.cell, heq]
    · simp [QpsSlot.cell, heq]
  · rw [Function.update_of_ne hi, Function.update_of_ne hi]
    rfl

theorem snapshot_qpsCurrentSecond (k startNs nowNs laterNs : ℕ) (t : Totals) :
    (snapshot (2 ^ k - 1) startNs nowNs laterNs t).qpsCurrentSecond =
      Recycled.read (2 ^ k) (qpsCells t.qpsSlots) (laterNs / nsPerSecond) := by
  simp only [snapshot, Recycled.read, qpsCells, QpsSlot.cell, Nat.and_two_pow_sub_one_eq_mod]
  rfl

/-- The rounded capacity is a power of two, whatever the size. -/
theorem doubleUntil_some {value fuel out r : ℕ} (hout : out = 0 ∨ ∃ k, out = 2 ^ k)
    (hpos : 0 < value) (h : doubleUntil value fuel out = some r) :
    ∃ k, r = 2 ^ k ∧ value ≤ 2 ^ k := by
  induction fuel generalizing out with
  | zero => cases h
  | succ fuel ih =>
    unfold doubleUntil at h
    by_cases hlt : out < value
    · rw [if_pos hlt] at h
      refine ih ?_ h
      rcases hout with rfl | ⟨k, rfl⟩
      · exact .inl rfl
      · by_cases hk : k + 1 < 64
        · refine .inr ⟨k + 1, ?_⟩
          rw [← pow_succ, Nat.mod_eq_of_lt (Nat.pow_lt_pow_right (by decide) hk)]
        · refine .inl ?_
          rw [← pow_succ]
          exact Nat.mod_eq_zero_of_dvd (pow_dvd_pow 2 (by omega))
    · rw [if_neg hlt] at h
      cases h
      rcases hout with rfl | ⟨k, rfl⟩
      · exact absurd hpos hlt
      · exact ⟨k, rfl, not_lt.mp hlt⟩

theorem normalizePowerOfTwo_some {n minValue r : ℕ} (hmin : 0 < minValue)
    (h : normalizePowerOfTwo n minValue = some r) :
    ∃ k, r = 2 ^ k ∧ n ≤ 2 ^ k ∧ minValue ≤ 2 ^ k := by
  obtain ⟨k, hr, hle⟩ := doubleUntil_some (.inr ⟨0, rfl⟩) (lt_max_of_lt_right hmin) h
  exact ⟨k, hr, (le_max_left _ _).trans hle, (le_max_right _ _).trans hle⟩

/-! ## What a run records -/

/-- A drained sample with the clock reading of the step that drained it. -/
structure Recorded where
  sample : RequestSample
  nowNs : ℕ

namespace Recorded

/-- The time the sample counts at. -/
def stampNs (x : Recorded) : ℕ :=
  if x.sample.timestampNs = 0 then x.nowNs else x.sample.timestampNs

def second (x : Recorded) : ℕ := x.stampNs / nsPerSecond

end Recorded

namespace Collector

variable {ι : Type*} [DecidableEq ι] {c : Collector ι}

/-- What a step records. -/
def recorded (c : Collector ι) : Action ι → List Recorded
  | .drain nowNs =>
    match c.drain with
    | .consume i r write _ =>
      if r < write then [⟨(c.writers i).ring (slot (c.ringCapacity - 1) r), nowNs⟩] else []
    | _ => []
  | _ => []

/-- What a run records, in order. -/
def recordings (c : Collector ι) : List (Action ι) → List Recorded
  | [] => []
  | a :: actions => c.recorded a ++ recordings (c.act a) actions

/-- A step records at most one sample. The slots and the drained samples follow from it. -/
theorem act_recorded (c : Collector ι) (a : Action ι) :
    (c.act a).qpsMask = c.qpsMask ∧
    (c.recorded a = [] ∧ (c.act a).totals.qpsSlots = c.totals.qpsSlots ∧
        (c.act a).drained = c.drained ∨
      ∃ x, c.recorded a = [x] ∧
        (c.act a).totals.qpsSlots = updateQps c.qpsMask x.stampNs c.totals.qpsSlots ∧
        (c.act a).drained = c.drained ++ [x.sample]) := by
  cases a with
  | create i =>
    simp only [act, createWriter]
    split_ifs <;> exact ⟨rfl, .inl ⟨rfl, rfl, rfl⟩⟩
  | record i sample =>
    simp only [act, recordStep]
    split_ifs <;> exact ⟨rfl, .inl ⟨rfl, rfl, rfl⟩⟩
  | drain nowNs =>
    simp only [act, drainStep, recorded]
    cases hd : c.drain with
    | consume i r write todo =>
      dsimp only
      by_cases hlt : r < write
      · rw [if_pos hlt, if_pos hlt]
        refine ⟨rfl, .inr ⟨_, rfl, rfl, ?_⟩⟩
        rw [drained, drained, List.map_append]
        rfl
      · rw [if_neg hlt, if_neg hlt]
        exact ⟨rfl, .inl ⟨rfl, rfl, rfl⟩⟩
    | nextWriter todo =>
      cases todo <;> exact ⟨rfl, .inl ⟨rfl, rfl, rfl⟩⟩
    | _ => exact ⟨rfl, .inl ⟨rfl, rfl, rfl⟩⟩

theorem run_qpsMask (actions : List (Action ι)) : (c.run actions).qpsMask = c.qpsMask := by
  induction actions generalizing c with
  | nil => rfl
  | cons a actions ih => exact ih.trans (act_recorded c a).1

/-- What a run records are the samples it drains. -/
theorem run_drained (actions : List (Action ι)) :
    (c.run actions).drained = c.drained ++ (c.recordings actions).map (·.sample) := by
  induction actions generalizing c with
  | nil => simp [recordings, run]
  | cons a actions ih =>
    have hrun : (c.run (a :: actions)).drained = ((c.act a).run actions).drained := rfl
    rw [hrun, ih, recordings, List.map_append, ← List.append_assoc]
    rcases (act_recorded c a).2 with ⟨hno, -, hsame⟩ | ⟨x, hone, -, hnext⟩
    · rw [hno, hsame, List.map_nil, List.append_nil]
    · rw [hone, hnext]
      rfl

/-- The cells have been touched at the seconds of the recorded samples. -/
theorem run_cells {k : ℕ} (hmask : c.qpsMask = 2 ^ k - 1) (actions : List (Action ι)) :
    qpsCells (c.run actions).totals.qpsSlots =
      ((c.recordings actions).map Recorded.second).foldl (Recycled.touch (2 ^ k))
        (qpsCells c.totals.qpsSlots) := by
  induction actions generalizing c with
  | nil => rfl
  | cons a actions ih =>
    have hrun : (c.run (a :: actions)).totals = ((c.act a).run actions).totals := rfl
    rw [hrun, ih ((act_recorded c a).1.trans hmask), recordings, List.map_append,
      List.foldl_append]
    rcases (act_recorded c a).2 with ⟨hno, hsame, -⟩ | ⟨x, hone, hnext, -⟩
    · rw [hno, hsame, List.map_nil, List.foldl_nil]
    · rw [hone, hnext, hmask, updateQps_touch]
      rfl

omit [DecidableEq ι] in
theorem new_qpsMask {cfg : StatsConfig} {startNs : ℕ} (h : new cfg startNs = some c) :
    ∃ slotCount, normalizePowerOfTwo cfg.qpsSlotCount 16 = some slotCount ∧
      c.qpsMask = slotCount - 1 := by
  unfold new at h
  split at h
  next _ slotCount _ hslots =>
    cases h
    exact ⟨slotCount, hslots, rfl⟩
  next => cases h

/-- **The count of the current second is exact.** The collector is at any moment of any
interleaving of the writers with the drain. Each drained sample is less than `slotCount` seconds
below the samples before it, and no sample is after the second of the snapshot. -/
theorem qps_current {cfg : StatsConfig} {startNs : ℕ} (hnew : new cfg startNs = some c)
    (actions : List (Action ι)) (nowNs laterNs : ℕ) :
    ∃ slotCount, normalizePowerOfTwo cfg.qpsSlotCount 16 = some slotCount ∧
      (c.recordings actions).map (·.sample) = (c.run actions).drained ∧
      (Recycled.Recent slotCount ((c.recordings actions).map Recorded.second) →
        (∀ x ∈ c.recordings actions, x.second ≤ laterNs / nsPerSecond) →
        (snapshot (c.run actions).qpsMask (c.run actions).startNs nowNs laterNs
            (c.run actions).totals).qpsCurrentSecond =
          (c.recordings actions).countP (·.second = laterNs / nsPerSecond)) := by
  obtain ⟨slotCount, hslots, hmask⟩ := new_qpsMask hnew
  obtain ⟨k, rfl, -⟩ := normalizePowerOfTwo_some (by decide) hslots
  obtain ⟨htotals, hhanded⟩ := new_totals hnew
  refine ⟨2 ^ k, hslots, ?_, fun hrecent hnow => ?_⟩
  · rw [run_drained, drained, hhanded]
    rfl
  have hcells : qpsCells (c.run actions).totals.qpsSlots =
      Recycled.touches (2 ^ k) ((c.recordings actions).map Recorded.second) := by
    rw [run_cells hmask, htotals]
    rfl
  rw [run_qpsMask, hmask, snapshot_qpsCurrentSecond, hcells,
    Recycled.read_eq_count hrecent (List.forall_mem_map.mpr hnow), List.count_eq_countP,
    List.countP_map]
  apply List.countP_congr
  intro x _
  simp only [Function.comp_apply, beq_iff_eq, decide_eq_true_eq]

/-- A sample that is recorded by four steps of its writer. -/
def recordAll (sample : RequestSample) : List (Action Bool) :=
  List.replicate 4 (.record true sample)

/-- Samples of seconds 70, 7 and 70 are drained. Seconds 7 and 70 are 63 apart, one less than there
are slots. -/
def lateRecorded : List (Action Bool) :=
  .create true :: recordAll { timestampNs := 70 * nsPerSecond, success := true }
    ++ recordAll { timestampNs := 7 * nsPerSecond + 5, success := true }
    ++ recordAll { timestampNs := 70 * nsPerSecond + 9, success := true }
    ++ List.replicate 6 (.drain (71 * nsPerSecond))

theorem qps_current_late :
    ∃ c₀ : Collector Bool, new {} 0 = some c₀ ∧
      (c₀.recordings lateRecorded).map Recorded.second = [70, 7, 70] ∧
      (snapshot (c₀.run lateRecorded).qpsMask (c₀.run lateRecorded).startNs 0 (70 * nsPerSecond)
        (c₀.run lateRecorded).totals).qpsCurrentSecond = 2 := by
  refine ⟨_, rfl, by decide +kernel, ?_⟩
  obtain ⟨slotCount, hslots, -, hexact⟩ :=
    @qps_current Bool _ _ {} 0 rfl lateRecorded 0 (70 * nsPerSecond)
  obtain rfl : 64 = slotCount := Option.some.inj hslots
  rw [hexact (by decide +kernel) (by decide +kernel)]
  decide +kernel

/-- A sample without a timestamp is drained at second 5. -/
def unstampedRecorded : List (Action Bool) :=
  .create true :: recordAll { success := true } ++ List.replicate 4 (.drain (5 * nsPerSecond))

/-- A sample with timestamp zero is counted in the second it is drained in. -/
theorem qps_current_unstamped :
    ∃ c₀ : Collector Bool, new {} 0 = some c₀ ∧ normalizePowerOfTwo 64 16 = some 64 ∧
      Recycled.Recent 64 ((c₀.run unstampedRecorded).drained.map (·.timestampNs / nsPerSecond)) ∧
      (∀ s ∈ (c₀.run unstampedRecorded).drained, s.timestampNs / nsPerSecond ≤ 5) ∧
      (snapshot (c₀.run unstampedRecorded).qpsMask (c₀.run unstampedRecorded).startNs 0
          (5 * nsPerSecond) (c₀.run unstampedRecorded).totals).qpsCurrentSecond ≠
        (c₀.run unstampedRecorded).drained.countP (·.timestampNs / nsPerSecond = 5) :=
  ⟨_, rfl, by decide +kernel, by decide +kernel, by decide +kernel, by decide +kernel⟩

end Collector

end TitanBench
